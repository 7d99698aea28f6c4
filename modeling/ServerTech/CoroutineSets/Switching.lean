import ServerTech.CoroutineSets.Slots

namespace ServerTech
namespace CoroutineSets

variable {stackSize : Nat} {Func Data Registers Memory : Type}

/-!
# Switching between coroutines

The invariant of the machine, and what each call of the scheduler does on the
states that have it.  A call fails only for a reason that the program has given.
-/

/-- What the slot `id` holds while the context `self` executes. -/
inductive Suits (stackSize : Nat) (self : Option (Context Registers)) (id : Int)
    (c : Coroutine Func Data Registers) : Prop
  | ready : c.status = .ready -> Suits stackSize self id c
  | running {context : Context Registers} :
      c.status = .running -> self = some context -> context.id = id -> Suits stackSize self id c
  | suspend {context : Context Registers} :
      c.status = .suspend -> c.ctx = some context -> context.id = id -> context.depth = c.size ->
      c.size ≤ stackSize -> Suits stackSize self id c

/-- The code that executes is that of the coroutine that `running` names, or `main`. -/
inductive Executing (s : Schedule stackSize Func Data Registers) : Option (Context Registers) -> Prop
  | main : s.running = -1 -> Executing s none
  | coroutine {context : Context Registers} {c : Coroutine Func Data Registers} :
      s.running = context.id -> context.depth ≤ stackSize -> s.occupant context.id = some c ->
      c.status = .running -> Executing s (some context)

/-- The states that the machine reaches. -/
structure Valid (m : Machine stackSize Func Data Registers Memory) : Prop where
  table : Table m.schedule
  block : forall id c, m.schedule.occupant id = some c -> c.stack.length = c.cap ∧ c.size ≤ c.cap
  suits : forall id c, m.schedule.occupant id = some c -> Suits stackSize m.self id c
  executing : Executing m.schedule m.self

theorem valid_start (stack : StackSpace stackSize UInt8) (main : Registers) (memory : Memory) :
    Valid (Machine.start stack main memory : Machine stackSize Func Data Registers Memory) where
  table := table_open stack
  block := by
    intro id c there
    rw [Machine.start, occupant_open] at there
    cases there
  suits := by
    intro id c there
    rw [Machine.start, occupant_open] at there
    cases there
  executing := .main rfl

/-- What happens to the coroutine in one slot leaves the machine valid, if it
suits the context that executes then. -/
theorem Valid.update {m after : Machine stackSize Func Data Registers Memory} (valid : Valid m)
    {id : Int} {co : Option (Coroutine Func Data Registers)} (table : Table after.schedule)
    (occupant : after.schedule.occupant = Function.update m.schedule.occupant id co)
    (block : forall c, co = some c -> c.stack.length = c.cap ∧ c.size ≤ c.cap)
    (suits : forall c, co = some c -> Suits stackSize after.self id c)
    (others : forall other c, other ≠ id -> m.schedule.occupant other = some c ->
      Suits stackSize after.self other c)
    (executing : Executing after.schedule after.self) : Valid after where
  table := table
  block := by
    intro other c there
    rw [occupant] at there
    by_cases same : other = id
    · subst same
      rw [Function.update_self] at there
      exact block c there
    · rw [Function.update_of_ne same] at there
      exact valid.block other c there
  suits := by
    intro other c there
    rw [occupant] at there
    by_cases same : other = id
    · subst same
      rw [Function.update_self] at there
      exact suits c there
    · rw [Function.update_of_ne same] at there
      exact others other c same there
  executing := executing

/-- A coroutine in a free slot leaves the one that executes. -/
theorem Executing.fill {s later : Schedule stackSize Func Data Registers}
    {self : Option (Context Registers)} {id : Int} {co : Option (Coroutine Func Data Registers)}
    (executing : Executing s self) (running : later.running = s.running)
    (free : s.occupant id = none) (occupant : later.occupant = Function.update s.occupant id co) :
    Executing later self := by
  cases executing with
  | main idle => exact .main (running.trans idle)
  | @coroutine context c runs deep there status =>
      have apart : context.id ≠ id := by
        rintro rfl
        rw [there] at free
        cases free
      refine .coroutine (running.trans runs) deep ?_ status
      rw [occupant, Function.update_of_ne apart]
      exact there

theorem Suits.idle {id : Int} {c : Coroutine Func Data Registers}
    (suits : Suits stackSize none id c) (self : Option (Context Registers)) :
    Suits stackSize self id c := by
  cases suits with
  | ready ready => exact .ready ready
  | running _ none_ _ => cases none_
  | suspend suspended saved same deep fits => exact .suspend suspended saved same deep fits

theorem Suits.other {context : Context Registers} {id : Int} {c : Coroutine Func Data Registers}
    (suits : Suits stackSize (some context) id c) (different : id ≠ context.id)
    (self : Option (Context Registers)) : Suits stackSize self id c := by
  cases suits with
  | ready ready => exact .ready ready
  | running _ executes same =>
      cases executes
      exact absurd same.symm different
  | suspend suspended saved same deep fits => exact .suspend suspended saved same deep fits

section GoingOn

variable {m : Machine stackSize Func Data Registers Memory} {registers : Registers}

@[simp] theorem Machine.goOn_schedule : (m.goOn registers).schedule = m.schedule := by
  rw [Machine.goOn]
  split <;> rfl

@[simp] theorem Machine.goOn_memory : (m.goOn registers).memory = m.memory := by
  rw [Machine.goOn]
  split <;> rfl

theorem Machine.goOn_self : (m.goOn registers).self =
    m.self.map fun context => { context with registers := registers } := by
  rw [Machine.goOn]
  split
  case h_1 none_ =>
    rw [none_]
    rfl
  case h_2 _ executes =>
    rw [executes]
    rfl

@[simp] theorem Machine.goOn_live : (m.goOn registers).live = m.live := by
  rw [Machine.live, Machine.live, Machine.goOn_self, Machine.goOn_schedule]
  cases m.self <;> rfl

theorem Machine.goOn_main (none_ : (m.goOn registers).self = none) :
    m.self = none ∧ m.goOn registers = { m with main := registers } := by
  rw [Machine.goOn_self, Option.map_eq_none_iff] at none_
  refine ⟨none_, ?_⟩
  rw [Machine.goOn, none_]

theorem Machine.goOn_coroutine {context : Context Registers} (self : m.self = some context) :
    m.goOn registers = { m with self := some { context with registers := registers } } := by
  rw [Machine.goOn, self]

/-- The registers of the code that executes are of no matter to the scheduler. -/
theorem Valid.goOn (valid : Valid m) : Valid (m.goOn registers) where
  table := by
    rw [Machine.goOn_schedule]
    exact valid.table
  block := by
    rw [Machine.goOn_schedule]
    exact valid.block
  suits := by
    intro id c there
    rw [Machine.goOn_schedule] at there
    rw [Machine.goOn_self]
    have suits := valid.suits id c there
    cases suits with
    | ready ready => exact .ready ready
    | running running executes same =>
        rw [executes]
        exact .running running rfl same
    | suspend suspended saved same deep fits => exact .suspend suspended saved same deep fits
  executing := by
    rw [Machine.goOn_schedule, Machine.goOn_self]
    have executing := valid.executing
    cases executing' : m.self with
    | none =>
        rw [executing'] at executing
        exact executing
    | some context =>
        rw [executing'] at executing
        cases executing with
        | coroutine running deep there status => exact .coroutine running deep there status

end GoingOn

/-- The saved block holds the live part of the stack. -/
theorem saveStack_ok {c : Coroutine Func Data Registers} {live : List UInt8}
    (block : c.stack.length = c.cap) (fits : live.length ≤ stackSize) :
    Exists fun cap => Exists fun stack => saveStack stackSize c live =
        .ok { c with cap := cap, size := live.length, stack := stack } ∧
      stack.length = cap ∧ live.length ≤ cap ∧ stack.take live.length = live := by
  rw [saveStack, if_neg (Nat.not_lt.mpr fits)]
  by_cases small : c.cap < live.length
  · simp only [if_pos small, List.length_replicate, Nat.lt_irrefl, if_false]
    refine ⟨_, _, rfl, ?_, Nat.le_refl _, ?_⟩
    · rw [List.length_append, List.length_drop, List.length_replicate, Nat.sub_self, Nat.add_zero]
    · exact List.take_left
  · have enough : ¬ c.stack.length < live.length := by omega
    simp only [if_neg small, if_neg enough]
    refine ⟨_, _, rfl, ?_, Nat.le_of_not_lt small, ?_⟩
    · rw [List.length_append, List.length_drop]
      omega
    · exact List.take_left

/-- What `coroutine_resume` comes to. -/
inductive Resumed (program : Program Func Data Registers Memory)
    (m : Machine stackSize Func Data Registers Memory) (id : Int) :
    Except Stop (Machine stackSize Func Data Registers Memory) -> Prop
  | nested : m.self ≠ none -> Resumed program m id (.error .nested)
  | badId : m.self = none -> ¬(0 ≤ id ∧ id < m.schedule.cap) ->
      Resumed program m id (.error .badId)
  | dead : m.self = none -> 0 ≤ id ∧ id < m.schedule.cap -> m.schedule.occupant id = none ->
      Resumed program m id (.ok m)
  | entered {c entry : Coroutine Func Data Registers}
      {after : Machine stackSize Func Data Registers Memory} :
      m.self = none -> m.schedule.occupant id = some c -> c.status = .ready -> Valid after ->
      after.memory = m.memory -> after.main = m.main ->
      after.self = some ⟨id, program.enter c.func c.ud, 0⟩ ->
      after.schedule.occupant = Function.update m.schedule.occupant id (some entry) ->
      entry.func = c.func -> entry.ud = c.ud -> entry.status = .running ->
      Resumed program m id (.ok after)
  | returned {c entry : Coroutine Func Data Registers} {context : Context Registers}
      {after : Machine stackSize Func Data Registers Memory} :
      m.self = none -> m.schedule.occupant id = some c -> c.status = .suspend ->
      c.ctx = some context -> context.id = id -> Valid after ->
      after.memory = m.memory -> after.main = m.main -> after.self = some context ->
      after.live = c.stack.take c.size ->
      after.schedule.occupant = Function.update m.schedule.occupant id (some entry) ->
      entry.func = c.func -> entry.ud = c.ud -> entry.status = .running ->
      Resumed program m id (.ok after)

theorem coroutineResume_cases {m : Machine stackSize Func Data Registers Memory} (valid : Valid m)
    (program : Program Func Data Registers Memory) (id : Int) :
    Resumed program m id (coroutineResume program m id) := by
  have executing := valid.executing
  rw [coroutineResume]
  cases self : m.self with
  | some context =>
      rw [self] at executing
      cases executing with
      | coroutine running _ there _ =>
          have within := valid.table.within_of_occupant there
          have busy : m.schedule.running ≠ -1 := by omega
          simp only [if_pos busy]
          exact .nested (by rw [self]; exact Option.some_ne_none _)
  | none =>
      rw [self] at executing
      cases executing with
      | main running =>
      simp only [running, ne_eq, not_true_eq_false, if_false]
      by_cases within : 0 ≤ id ∧ id < m.schedule.cap
      · rw [if_neg (not_not.mpr within), valid.table.slot_cases within]
        have inside := valid.table.slot_ne_none_iff.mpr within
        cases there : m.schedule.occupant id with
        | none => exact .dead self within there
        | some c =>
            have block := valid.block id c there
            have others : forall context other d, other ≠ id ->
                m.schedule.occupant other = some d -> Suits stackSize (some context) other d := by
              intro context other d _ found
              have suits := valid.suits other d found
              rw [self] at suits
              exact suits.idle _
            have suits := valid.suits id c there
            rw [self] at suits
            cases suits with
            | running _ none_ _ => cases none_
            | ready ready =>
                have stored := fun d => Schedule.occupant_store inside (some d)
                simp only [ready]
                refine .entered self there ready ?_ rfl rfl rfl (stored _) rfl rfl rfl
                refine valid.update (valid.table.replace there _ rfl rfl rfl) (stored _) ?_ ?_
                  (others _) ?_
                · rintro d ⟨⟩
                  exact block
                · rintro d ⟨⟩
                  exact .running rfl rfl rfl
                · refine .coroutine rfl (Nat.zero_le _)
                    ((congrFun (stored _) id).trans (Function.update_self ..)) ?_
                  rfl
            | @suspend context suspended saved same deep fits =>
                subst same
                have stored := fun d => Schedule.occupant_store inside (some d)
                have length : (c.stack.take c.size).length = c.size := by
                  rw [List.length_take]
                  omega
                have enough : ¬ c.stack.length < c.size := by omega
                have room : (c.stack.take c.size).length ≤ stackSize := by omega
                simp only [suspended, if_neg enough, dif_pos room, saved]
                refine .returned self there suspended saved rfl ?_ rfl rfl rfl ?_ (stored _) rfl rfl rfl
                · refine valid.update (valid.table.replace there _ rfl rfl rfl) (stored _) ?_ ?_
                    (others _) ?_
                  · rintro d ⟨⟩
                    exact block
                  · rintro d ⟨⟩
                    exact .running rfl rfl rfl
                  · refine .coroutine rfl (deep ▸ fits)
                      ((congrFun (stored _) context.id).trans (Function.update_self ..)) ?_
                    rfl
                · change (m.schedule.stack.place (c.stack.take c.size) room).live context.depth = _
                  have placed := StackSpace.live_place m.schedule.stack room
                  rw [length] at placed
                  rw [deep]
                  exact placed
      · rw [if_pos within]
        exact .badId self within

/-- What `coroutine_yield` comes to. -/
inductive Yielded (m : Machine stackSize Func Data Registers Memory) :
    Except Stop (Machine stackSize Func Data Registers Memory) -> Prop
  | notRunning : m.self = none -> Yielded m (.error .notRunning)
  | saved {c kept : Coroutine Func Data Registers} {context : Context Registers}
      {after : Machine stackSize Func Data Registers Memory} :
      m.self = some context -> m.schedule.occupant context.id = some c -> c.status = .running ->
      Valid after -> after.memory = m.memory -> after.main = m.main -> after.self = none ->
      after.schedule.occupant = Function.update m.schedule.occupant context.id (some kept) ->
      kept.func = c.func -> kept.ud = c.ud -> kept.status = .suspend -> kept.ctx = some context ->
      kept.stack.take kept.size = m.live -> Yielded m (.ok after)

theorem coroutineYield_cases {m : Machine stackSize Func Data Registers Memory} (valid : Valid m) :
    Yielded m (coroutineYield m) := by
  have executing := valid.executing
  rw [coroutineYield]
  cases self : m.self with
  | none =>
      rw [self] at executing
      cases executing with
      | main running =>
          have none_ : m.schedule.running < 0 := by omega
          simp only [if_pos none_]
          exact .notRunning self
  | some context =>
      rw [self] at executing
      cases executing with
      | @coroutine _ c running deep there status =>
          have within := valid.table.within_of_occupant there
          have inside := valid.table.slot_ne_none_iff.mpr within
          have some_ : ¬ context.id < 0 := by omega
          have live : m.live = m.schedule.stack.live context.depth := by
            rw [Machine.live, self]
          have length : m.live.length = context.depth := by
            rw [live, StackSpace.length_live _ deep]
          have fits : m.live.length ≤ stackSize := by omega
          rcases saveStack_ok (valid.block _ c there).1 fits with
            ⟨cap, stack, saved, block, held, same⟩
          simp only [running, if_neg some_, valid.table.slot_cases within, there, saved]
          have stored := fun d => Schedule.occupant_store inside (some d)
          refine .saved self there status ?_ rfl rfl rfl (stored _) rfl rfl rfl rfl same
          refine valid.update (valid.table.replace there _ rfl rfl rfl) (stored _) ?_ ?_ ?_
            (.main rfl)
          · rintro d ⟨⟩
            exact ⟨block, held⟩
          · rintro d ⟨⟩
            exact .suspend rfl rfl rfl length.symm fits
          · intro other d different found
            have suits := valid.suits other d found
            rw [self] at suits
            exact suits.other different _

/-- What the end of a function comes to. -/
inductive Finished (m : Machine stackSize Func Data Registers Memory) :
    Except Stop (Machine stackSize Func Data Registers Memory) -> Prop
  | exit : m.self = none -> Finished m (.error .exit)
  | deleted {context : Context Registers} {after : Machine stackSize Func Data Registers Memory} :
      m.self = some context -> m.schedule.occupant context.id ≠ none ->
      Valid after -> after.memory = m.memory -> after.main = m.main -> after.self = none ->
      after.schedule.occupant = Function.update m.schedule.occupant context.id none ->
      Finished m (.ok after)

theorem finish_cases {m : Machine stackSize Func Data Registers Memory} (valid : Valid m) :
    Finished m (finish m) := by
  have executing := valid.executing
  rw [finish]
  cases self : m.self with
  | none => exact .exit self
  | some context =>
      rw [self] at executing
      cases executing with
      | @coroutine _ c running deep there status =>
          have within := valid.table.within_of_occupant there
          have inside := valid.table.slot_ne_none_iff.mpr within
          have stored := Schedule.occupant_store inside none
          simp only [valid.table.slot_cases within, there]
          refine .deleted self (by rw [there]; exact Option.some_ne_none _) ?_ rfl rfl rfl stored
          refine valid.update (valid.table.put within none rfl rfl ?_) stored ?_ ?_ ?_ (.main rfl)
          · rw [there, Option.isSome_some, Option.isSome_none, if_pos rfl, if_neg Bool.false_ne_true,
              Int.add_zero]
          · rintro d ⟨⟩
          · rintro d ⟨⟩
          · intro other d different found
            have suits := valid.suits other d found
            rw [self] at suits
            exact suits.other different _

end CoroutineSets
end ServerTech
