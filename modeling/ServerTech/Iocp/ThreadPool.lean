import ServerTech.Foundation.Transition

namespace ServerTech
namespace Iocp

open Transition

/-!
# The thread pool

Each worker of the pool runs a loop: it tests `m_shutdown`, locks the mutex,
waits until the queue is not empty, takes a task, unlocks the mutex and runs the
task.  `submit` puts a task into the queue and wakes one worker, and `shutdown`
sets the flag, wakes all workers and joins them.

The predicate of the wait looks at the queue only.  A worker between its test of
the flag and its removal of a task gets out of the loop only through a task, so
a shutdown that finds fewer tasks than such workers leaves one of them waiting.
-/

section

variable {τ : Type}

/-! ## The pool -/

/-- Where a worker stands in its loop.  A worker that is woken locks the mutex
and tests the predicate again, as one that has just come to the wait. -/
inductive Worker (τ : Type)
  | testing
  | locking
  | checking
  | waiting
  | dequeuing
  | unlocking (func : Option τ)
  | running (func : τ)
  | exited
  deriving DecidableEq

/-- The pool.  `mutex` names the worker that holds `m_condition_mutex`, and
`notices` counts the calls of `submit` that have yet to notify. -/
structure ThreadPool (τ : Type) where
  shutdown : Bool
  queue : List τ
  workers : List (Worker τ)
  mutex : Option Nat
  notices : Nat

/-- A step of a worker, a wake-up without a notification, the critical section
of `submit`, its notification with the worker that it wakes, the flag of
`shutdown`, and its notification. -/
inductive PoolAction (τ : Type)
  | worker (index : Nat)
  | wake (index : Nat)
  | submit (func : τ)
  | notifyOne (woken : Option Nat)
  | shutdown
  | notifyAll

/-- A notified worker leaves the wait. -/
def Worker.wakeUp : Worker τ -> Worker τ
  | .waiting => .locking
  | worker => worker

namespace ThreadPool

/-- The pool after `init`. -/
def init (threads : Nat) : ThreadPool τ where
  shutdown := false
  queue := []
  workers := List.replicate threads .testing
  mutex := none
  notices := 0

def put (pool : ThreadPool τ) (index : Nat) (worker : Worker τ) : ThreadPool τ :=
  { pool with workers := pool.workers.set index worker }

/-- One step of `ThreadWork::operator()`. -/
def work (pool : ThreadPool τ) (index : Nat) : Worker τ -> Option (ThreadPool τ)
  | .testing => some (pool.put index (if pool.shutdown then .exited else .locking))
  | .locking =>
      if pool.mutex = none then some ({ pool with mutex := some index }.put index .checking)
      else none
  | .checking =>
      if pool.queue.isEmpty then some ({ pool with mutex := none }.put index .waiting)
      else some (pool.put index .dequeuing)
  | .waiting => none
  | .dequeuing =>
      some ({ pool with queue := pool.queue.tail }.put index (.unlocking pool.queue.head?))
  | .unlocking (some func) => some ({ pool with mutex := none }.put index (.running func))
  | .unlocking none => some ({ pool with mutex := none }.put index .testing)
  | .running _ => some (pool.put index .testing)
  | .exited => none

/-- Wake a worker that waits. -/
def wake (pool : ThreadPool τ) (index : Nat) : Option (ThreadPool τ) :=
  match pool.workers[index]? with
  | some .waiting => some (pool.put index .locking)
  | _ => none

def next (pool : ThreadPool τ) : PoolAction τ -> Option (ThreadPool τ)
  | .worker index => pool.workers[index]?.bind (pool.work index)
  | .wake index => pool.wake index
  | .submit func =>
      if pool.mutex = none then
        some { pool with queue := pool.queue ++ [func], notices := pool.notices + 1 }
      else none
  | .notifyOne woken =>
      if pool.notices = 0 then none
      else
        match woken with
        | some index => { pool with notices := pool.notices - 1 }.wake index
        | none =>
            if pool.workers.any (fun worker => worker matches .waiting) then none
            else some { pool with notices := pool.notices - 1 }
  | .shutdown => some { pool with shutdown := true }
  | .notifyAll =>
      if pool.shutdown then some { pool with workers := pool.workers.map Worker.wakeUp } else none

end ThreadPool

/-! ## Workers that need a task -/

/-- A worker behind its test of the flag that has not taken a task yet. -/
def Worker.committed : Worker τ -> Bool
  | .locking | .checking | .waiting | .dequeuing => true
  | .testing | .unlocking _ | .running _ | .exited => false

@[simp] theorem Worker.committed_wakeUp (worker : Worker τ) :
    worker.wakeUp.committed = worker.committed := by
  cases worker <;> rfl

namespace ThreadPool

/-- The number of workers that need a task. -/
def committed (pool : ThreadPool τ) : Nat :=
  pool.workers.countP Worker.committed

/-- What a worker's move changes in the count. -/
theorem committed_set {pool : ThreadPool τ} (after : ThreadPool τ) {index : Nat}
    {old new : Worker τ} (current : pool.workers[index]? = some old)
    (workers : after.workers = pool.workers.set index new) :
    after.committed + (if old.committed then 1 else 0) =
      pool.committed + (if new.committed then 1 else 0) := by
  rcases List.getElem?_eq_some_iff.mp current with ⟨inside, value⟩
  have counted : old.committed = true -> 0 < pool.workers.countP Worker.committed := by
    intro holds
    exact List.countP_pos_iff.mpr ⟨old, List.mem_of_getElem? current, holds⟩
  rw [committed, committed, workers, List.countP_set inside, value]
  by_cases holds : old.committed = true
  · have positive := counted holds
    simp only [if_pos holds]
    omega
  · simp only [if_neg holds]
    omega

theorem committed_same {pool after : ThreadPool τ} {index : Nat} {old new : Worker τ}
    (current : pool.workers[index]? = some old)
    (workers : after.workers = pool.workers.set index new)
    (same : new.committed = old.committed) : after.committed = pool.committed := by
  have count := committed_set after current workers
  rw [same] at count
  exact Nat.add_right_cancel count

end ThreadPool

/-! ## The mutex -/

/-- A worker that holds the mutex. -/
def Worker.holds : Worker τ -> Bool
  | .checking | .dequeuing | .unlocking _ => true
  | .testing | .locking | .waiting | .running _ | .exited => false

namespace ThreadPool

/-- Only the worker that the mutex names is in its critical section, and it
takes a task from a queue that is not empty. -/
structure Exclusive (pool : ThreadPool τ) : Prop where
  holder : forall index worker, pool.workers[index]? = some worker -> worker.holds = true ->
    pool.mutex = some index
  task : forall index : Nat, pool.workers[index]? = some .dequeuing -> pool.queue ≠ []

theorem exclusive_init (threads : Nat) : (init threads : ThreadPool τ).Exclusive := by
  have every : forall (index : Nat) (worker : Worker τ),
      (init threads : ThreadPool τ).workers[index]? = some worker -> worker = Worker.testing := by
    intro index worker current
    exact List.eq_of_mem_replicate (List.mem_of_getElem? current)
  constructor
  · intro index worker current holds
    rw [every index worker current] at holds
    cases holds
  · intro index current
    cases every index _ current

/-- A worker's move keeps the discipline if the mutex and the queue go with it. -/
theorem Exclusive.put {pool after : ThreadPool τ} {index : Nat} {new : Worker τ}
    (exclusive : pool.Exclusive) (workers : after.workers = pool.workers.set index new)
    (others : forall other, other ≠ index -> pool.mutex = some other ->
      after.mutex = some other ∧ after.queue = pool.queue)
    (holds : new.holds = true -> after.mutex = some index)
    (task : new = .dequeuing -> after.queue ≠ []) : after.Exclusive := by
  have moved : forall other worker, after.workers[other]? = some worker ->
      other = index ∧ worker = new ∨ other ≠ index ∧ pool.workers[other]? = some worker := by
    intro other worker current
    rw [workers, List.getElem?_set] at current
    by_cases same : index = other
    · rw [if_pos same] at current
      by_cases inside : index < pool.workers.length
      · rw [if_pos inside] at current
        exact .inl ⟨same.symm, (Option.some.inj current).symm⟩
      · rw [if_neg inside] at current
        cases current
    · rw [if_neg same] at current
      exact .inr ⟨fun equal => same equal.symm, current⟩
  constructor
  · intro other worker current held
    rcases moved other worker current with ⟨rfl, rfl⟩ | ⟨different, before⟩
    · exact holds held
    · exact (others other different (exclusive.holder other worker before held)).1
  · intro other current
    rcases moved other _ current with ⟨rfl, same⟩ | ⟨different, before⟩
    · exact task same.symm
    · rw [(others other different (exclusive.holder other _ before rfl)).2]
      exact exclusive.task other before

theorem Exclusive.pass {pool : ThreadPool τ} {index : Nat} {new : Worker τ}
    (exclusive : pool.Exclusive) (outside : new.holds = false) : (pool.put index new).Exclusive := by
  apply exclusive.put rfl
  · intro other _ held
    exact ⟨held, rfl⟩
  · intro holds
    rw [outside] at holds
    cases holds
  · intro same
    rw [same] at outside
    cases outside

theorem Exclusive.leave {pool after : ThreadPool τ} {index : Nat} {new : Worker τ}
    (exclusive : pool.Exclusive) (mine : pool.mutex = some index)
    (workers : after.workers = pool.workers.set index new) (outside : new.holds = false) :
    after.Exclusive := by
  apply exclusive.put workers
  · intro other different held
    rw [mine] at held
    exact absurd (Option.some.inj held).symm different
  · intro holds
    rw [outside] at holds
    cases holds
  · intro same
    rw [same] at outside
    cases outside

theorem exclusive_work {pool after : ThreadPool τ} {index : Nat} {worker : Worker τ}
    (exclusive : pool.Exclusive) (current : pool.workers[index]? = some worker)
    (taken : pool.work index worker = some after) : after.Exclusive := by
  cases worker with
  | testing =>
      cases taken
      apply exclusive.pass
      cases pool.shutdown with
      | true => rfl
      | false => rfl
  | locking =>
      by_cases free : pool.mutex = none
      · rw [work, if_pos free] at taken
        cases taken
        apply exclusive.put rfl
        · intro other _ held
          rw [free] at held
          cases held
        · intro _
          rfl
        · intro same
          cases same
      · rw [work, if_neg free] at taken
        cases taken
  | checking =>
      have mine := exclusive.holder index _ current rfl
      by_cases empty : pool.queue.isEmpty = true
      · rw [work, if_pos empty] at taken
        cases taken
        exact exclusive.leave mine rfl rfl
      · rw [work, if_neg empty] at taken
        cases taken
        apply exclusive.put rfl
        · intro other _ held
          exact ⟨held, rfl⟩
        · intro _
          exact mine
        · intro _ none
          exact empty (List.isEmpty_iff.mpr none)
  | waiting => cases taken
  | dequeuing =>
      have mine := exclusive.holder index _ current rfl
      cases taken
      apply exclusive.put rfl
      · intro other different held
        rw [mine] at held
        exact absurd (Option.some.inj held).symm different
      · intro _
        exact mine
      · intro same
        cases same
  | unlocking func =>
      have mine := exclusive.holder index _ current rfl
      cases func with
      | some func =>
          cases taken
          exact exclusive.leave mine rfl rfl
      | none =>
          cases taken
          exact exclusive.leave mine rfl rfl
  | running func =>
      cases taken
      exact exclusive.pass rfl
  | exited => cases taken

theorem exclusive_wake {pool after : ThreadPool τ} {index : Nat} (exclusive : pool.Exclusive)
    (taken : pool.wake index = some after) : after.Exclusive := by
  unfold wake at taken
  split at taken
  · cases taken
    exact exclusive.pass rfl
  · cases taken

/-- A notification wakes a worker or reaches none. -/
theorem notifyOne_cases {pool after : ThreadPool τ} {woken : Option Nat}
    (taken : pool.next (.notifyOne woken) = some after) :
    (Exists fun index => { pool with notices := pool.notices - 1 }.wake index = some after) ∨
      after = { pool with notices := pool.notices - 1 } := by
  simp only [next] at taken
  split at taken
  · cases taken
  · cases woken with
    | some index => exact .inl ⟨index, taken⟩
    | none =>
        simp only [Option.ite_none_left_eq_some, Option.some.injEq] at taken
        exact .inr taken.2.symm

theorem exclusive_step {pool after : ThreadPool τ} {action : PoolAction τ}
    (exclusive : pool.Exclusive) (taken : pool.next action = some after) : after.Exclusive := by
  cases action with
  | worker index =>
      rcases Option.bind_eq_some_iff.mp taken with ⟨worker, current, moved⟩
      exact exclusive_work exclusive current moved
  | wake index => exact exclusive_wake exclusive taken
  | submit func =>
      by_cases free : pool.mutex = none
      · rw [next, if_pos free] at taken
        cases taken
        refine ⟨exclusive.holder, ?_⟩
        intro _ _
        exact List.append_ne_nil_of_right_ne_nil _ (List.cons_ne_nil _ _)
      · rw [next, if_neg free] at taken
        cases taken
  | notifyOne woken =>
      have noticed : { pool with notices := pool.notices - 1 }.Exclusive :=
        ⟨exclusive.holder, exclusive.task⟩
      rcases notifyOne_cases taken with ⟨index, moved⟩ | rfl
      · exact exclusive_wake noticed moved
      · exact noticed
  | shutdown =>
      cases taken
      exact ⟨exclusive.holder, exclusive.task⟩
  | notifyAll =>
      by_cases closed : pool.shutdown = true
      · rw [next, if_pos closed] at taken
        cases taken
        have before : forall (index : Nat) (worker : Worker τ),
            (pool.workers.map Worker.wakeUp)[index]? = some worker ->
            worker.holds = true -> pool.workers[index]? = some worker := by
          intro index worker current holds
          rw [List.getElem?_map] at current
          rcases Option.map_eq_some_iff.mp current with ⟨old, found, rfl⟩
          cases old <;> first | exact found | cases holds
        constructor
        · intro index worker current holds
          exact exclusive.holder index worker (before index worker current holds) holds
        · intro index current
          exact exclusive.task index (before index _ current rfl)
      · rw [next, if_neg closed] at taken
        cases taken

/-! ## Shutdown -/

/-- The tasks that an action puts into the queue. -/
def submitted : PoolAction τ -> Nat
  | .submit _ => 1
  | .worker _ | .wake _ | .notifyOne _ | .shutdown | .notifyAll => 0

/-- After the shutdown, the workers in need of a task and the tasks in the queue
get fewer together. -/
theorem balance_work {pool after : ThreadPool τ} {index : Nat} {worker : Worker τ}
    (exclusive : pool.Exclusive) (closed : pool.shutdown = true)
    (current : pool.workers[index]? = some worker)
    (taken : pool.work index worker = some after) :
    after.shutdown = true ∧
      after.committed + pool.queue.length = pool.committed + after.queue.length := by
  cases worker with
  | testing =>
      cases taken
      rw [closed, if_pos rfl]
      exact ⟨closed, congrArg (· + pool.queue.length) (committed_same current rfl rfl)⟩
  | locking =>
      simp only [work, Option.ite_none_right_eq_some, Option.some.injEq] at taken
      rcases taken with ⟨free, rfl⟩
      exact ⟨closed, congrArg (· + pool.queue.length) (committed_same current rfl rfl)⟩
  | checking =>
      simp only [work] at taken
      split at taken
      · cases taken
        exact ⟨closed, congrArg (· + pool.queue.length) (committed_same current rfl rfl)⟩
      · cases taken
        exact ⟨closed, congrArg (· + pool.queue.length) (committed_same current rfl rfl)⟩
  | waiting => cases taken
  | dequeuing =>
      have waiting := List.length_pos_iff.mpr (exclusive.task index current)
      cases taken
      have count : _ + 1 = pool.committed + 0 := committed_set
        ({ pool with queue := pool.queue.tail }.put index (.unlocking pool.queue.head?))
        current rfl
      refine ⟨closed, ?_⟩
      have shorter : ({ pool with queue := pool.queue.tail }.put index
          (.unlocking pool.queue.head?)).queue.length = pool.queue.length - 1 := List.length_tail
      omega
  | unlocking func =>
      cases func with
      | some func =>
          cases taken
          exact ⟨closed, congrArg (· + pool.queue.length) (committed_same current rfl rfl)⟩
      | none =>
          cases taken
          exact ⟨closed, congrArg (· + pool.queue.length) (committed_same current rfl rfl)⟩
  | running func =>
      cases taken
      exact ⟨closed, congrArg (· + pool.queue.length) (committed_same current rfl rfl)⟩
  | exited => cases taken

theorem wake_frame {pool after : ThreadPool τ} {index : Nat} (taken : pool.wake index = some after) :
    after.shutdown = pool.shutdown ∧ after.queue = pool.queue ∧
      after.committed = pool.committed := by
  simp only [wake] at taken
  split at taken
  · next waiting =>
      cases taken
      exact ⟨rfl, rfl, committed_same waiting rfl rfl⟩
  · cases taken

theorem balance_step {pool after : ThreadPool τ} {action : PoolAction τ}
    (exclusive : pool.Exclusive) (closed : pool.shutdown = true)
    (taken : pool.next action = some after) :
    after.shutdown = true ∧
      after.committed + pool.queue.length + submitted action =
        pool.committed + after.queue.length := by
  cases action with
  | worker index =>
      rcases Option.bind_eq_some_iff.mp taken with ⟨worker, current, moved⟩
      exact balance_work exclusive closed current moved
  | wake index =>
      rcases wake_frame taken with ⟨flag, queue, count⟩
      rw [queue, count]
      exact ⟨flag.trans closed, rfl⟩
  | submit func =>
      simp only [next, Option.ite_none_right_eq_some, Option.some.injEq] at taken
      rcases taken with ⟨_, rfl⟩
      refine ⟨closed, ?_⟩
      change pool.committed + _ + 1 = pool.committed + (pool.queue ++ [func]).length
      rw [List.length_append]
      rfl
  | notifyOne woken =>
      rcases notifyOne_cases taken with ⟨index, moved⟩ | rfl
      · rcases wake_frame moved with ⟨flag, queue, count⟩
        rw [queue, count]
        exact ⟨flag.trans closed, rfl⟩
      · exact ⟨closed, rfl⟩
  | shutdown =>
      cases taken
      exact ⟨rfl, rfl⟩
  | notifyAll =>
      simp only [next, Option.ite_none_right_eq_some, Option.some.injEq] at taken
      rcases taken with ⟨_, rfl⟩
      refine ⟨closed, ?_⟩
      have same : Worker.committed ∘ Worker.wakeUp = (Worker.committed : Worker τ -> Bool) := by
        funext worker
        exact Worker.committed_wakeUp worker
      rw [committed, List.countP_map, same]
      rfl

/-- A step that submits no task. -/
def Quiet (_ : ThreadPool τ) (action : PoolAction τ) : Prop :=
  submitted action = 0

/-- A worker is blocked for good: `shutdown` has been called, the worker waits
for a task, and without further submissions there will be none. -/
def Stuck (pool : ThreadPool τ) : Prop :=
  pool.shutdown = true ∧ .waiting ∈ pool.workers ∧
    forall actions final,
      Run (Restrict Quiet (Stepping next)) pool actions final -> final.queue = []

/-- A shutdown finds a task for every worker that needs one. -/
def Covered (pool : ThreadPool τ) : PoolAction τ -> Prop
  | .shutdown => pool.committed ≤ pool.queue.length
  | .worker _ | .wake _ | .submit _ | .notifyOne _ | .notifyAll => True

instance coveredDecidable (pool : ThreadPool τ) (action : PoolAction τ) :
    Decidable (pool.Covered action) :=
  match action with
  | .shutdown => inferInstanceAs (Decidable (pool.committed ≤ pool.queue.length))
  | .worker _ => isTrue trivial
  | .wake _ => isTrue trivial
  | .submit _ => isTrue trivial
  | .notifyOne _ => isTrue trivial
  | .notifyAll => isTrue trivial

/-- After the shutdown there is a task for every worker that needs one. -/
structure Supplied (pool : ThreadPool τ) : Prop where
  exclusive : pool.Exclusive
  tasks : pool.shutdown = true -> pool.committed ≤ pool.queue.length

/-- A worker leaves the flag alone and at most takes a task. -/
theorem work_frame {pool after : ThreadPool τ} {index : Nat} {worker : Worker τ}
    (taken : pool.work index worker = some after) :
    after.shutdown = pool.shutdown ∧
      (after.queue = pool.queue ∨ after.queue = pool.queue.tail) := by
  cases worker with
  | testing =>
      cases taken
      exact ⟨rfl, .inl rfl⟩
  | locking =>
      simp only [work, Option.ite_none_right_eq_some, Option.some.injEq] at taken
      rw [← taken.2]
      exact ⟨rfl, .inl rfl⟩
  | checking =>
      simp only [work] at taken
      split at taken <;> cases taken <;> exact ⟨rfl, .inl rfl⟩
  | waiting => cases taken
  | dequeuing =>
      cases taken
      exact ⟨rfl, .inr rfl⟩
  | unlocking func => cases func <;> cases taken <;> exact ⟨rfl, .inl rfl⟩
  | running func =>
      cases taken
      exact ⟨rfl, .inl rfl⟩
  | exited => cases taken

/-- Only `shutdown` sets the flag. -/
theorem next_shutdown {pool after : ThreadPool τ} {action : PoolAction τ}
    (taken : pool.next action = some after) :
    after.shutdown = pool.shutdown ∨
      action = .shutdown ∧ after = { pool with shutdown := true } := by
  cases action with
  | worker index =>
      rcases Option.bind_eq_some_iff.mp taken with ⟨worker, _, moved⟩
      exact .inl (work_frame moved).1
  | wake index => exact .inl (wake_frame taken).1
  | submit func =>
      simp only [next, Option.ite_none_right_eq_some, Option.some.injEq] at taken
      rw [← taken.2]
      exact .inl rfl
  | notifyOne woken =>
      rcases notifyOne_cases taken with ⟨index, moved⟩ | rfl
      · exact .inl (wake_frame moved).1
      · exact .inl rfl
  | shutdown => exact .inr ⟨rfl, (Option.some.inj taken).symm⟩
  | notifyAll =>
      simp only [next, Option.ite_none_right_eq_some, Option.some.injEq] at taken
      rw [← taken.2]
      exact .inl rfl

theorem supplied_step {pool after : ThreadPool τ} {action : PoolAction τ}
    (supplied : pool.Supplied) (taken : Restrict Covered (Stepping next) pool action after) :
    after.Supplied := by
  rcases taken with ⟨covered, taken⟩
  refine ⟨exclusive_step supplied.exclusive taken, ?_⟩
  intro closed
  by_cases before : pool.shutdown = true
  · have tasks := supplied.tasks before
    have balance := (balance_step supplied.exclusive before taken).2
    omega
  · rcases next_shutdown taken with same | ⟨rfl, rfl⟩
    · exact absurd (same.symm.trans closed) before
    · exact covered

/-- In every run, with any number of workers and any interleaving, whose
shutdown finds a task for every worker that needs one, no worker is blocked for
good. -/
theorem run_not_stuck {threads : Nat} {actions : List (PoolAction τ)} {final : ThreadPool τ}
    (run : Run (Restrict Covered (Stepping next)) (init threads) actions final) : ¬ final.Stuck := by
  have supplied : final.Supplied :=
    run.invariant (fun _ _ _ held taken => supplied_step held taken)
      ⟨exclusive_init threads, fun closed => nomatch closed⟩
  rintro ⟨closed, waiting, never⟩
  have empty : final.queue = [] := never [] final (.refl final)
  have tasks := supplied.tasks closed
  have needed : 0 < final.committed := List.countP_pos_iff.mpr ⟨_, waiting, rfl⟩
  rw [empty] at tasks
  exact absurd (Nat.lt_of_lt_of_le needed tasks) (Nat.lt_irrefl 0)

/-- A worker takes the only task; the shutdown finds it running. -/
def finished : List (PoolAction Unit) :=
  [.submit (), .worker 0, .worker 0, .worker 0, .worker 0, .worker 0, .notifyOne none, .shutdown,
    .notifyAll, .worker 0, .worker 0]

theorem run_not_stuck_finished :
    Exists fun final : ThreadPool Unit =>
      Run (Restrict Covered (Stepping next)) (init 1) finished final ∧
        final.workers = [.exited] ∧ ¬ final.Stuck := by
  have executed : (execute (guarded Covered next) (init 1 : ThreadPool Unit) finished).map
      (fun final => final.workers) = some [.exited] := by
    decide +kernel
  rcases Run.of_guarded_map executed with ⟨final, run, workers⟩
  exact ⟨final, run, workers, run_not_stuck run⟩

/-! ## A shutdown without tasks -/

/-- After the shutdown there are fewer tasks than workers that need one. -/
structure Excess (pool : ThreadPool τ) : Prop where
  exclusive : pool.Exclusive
  closed : pool.shutdown = true
  tasks : pool.queue.length < pool.committed

theorem excess_step {pool after : ThreadPool τ} {action : PoolAction τ} (excess : pool.Excess)
    (taken : Restrict Quiet (Stepping next) pool action after) : after.Excess := by
  rcases excess with ⟨exclusive, closed, tasks⟩
  rcases taken with ⟨without, taken⟩
  unfold Quiet at without
  have balance := balance_step exclusive closed taken
  exact ⟨exclusive_step exclusive taken, balance.1, by omega⟩

/-- The condition on the shutdown is needed: with fewer tasks than workers that
need one, and no more submissions, the join loop never ends. -/
theorem never_joined {pool final : ThreadPool τ} {actions : List (PoolAction τ)}
    (excess : pool.Excess)
    (run : Run (Restrict Quiet (Stepping next)) pool actions final) :
    Exists fun worker => worker ∈ final.workers ∧ worker ≠ .exited := by
  have later : final.Excess :=
    run.invariant (fun _ _ _ held taken => excess_step held taken) excess
  have needed : 0 < final.workers.countP Worker.committed :=
    Nat.lt_of_le_of_lt (Nat.zero_le _) later.tasks
  rcases List.countP_pos_iff.mp needed with ⟨worker, member, committed⟩
  refine ⟨worker, member, ?_⟩
  rintro rfl
  cases committed

theorem queue_empty_step {pool after : ThreadPool τ} {action : PoolAction τ}
    (empty : pool.queue = []) (taken : Restrict Quiet (Stepping next) pool action after) :
    after.queue = [] := by
  rcases taken with ⟨without, taken⟩
  change pool.next action = some after at taken
  cases action with
  | worker index =>
      rcases Option.bind_eq_some_iff.mp taken with ⟨worker, _, moved⟩
      rcases (work_frame moved).2 with same | shorter
      · exact same.trans empty
      · rw [shorter, empty]
        rfl
  | wake index => exact (wake_frame taken).2.1.trans empty
  | submit func => exact absurd without Nat.one_ne_zero
  | notifyOne woken =>
      rcases notifyOne_cases taken with ⟨index, moved⟩ | rfl
      · exact (wake_frame moved).2.1.trans empty
      · exact empty
  | shutdown =>
      cases taken
      exact empty
  | notifyAll =>
      simp only [next, Option.ite_none_right_eq_some, Option.some.injEq] at taken
      rw [← taken.2]
      exact empty

/-- The worker waits, the shutdown wakes it, and it waits again. -/
def unsupplied : List (PoolAction Unit) :=
  [.worker 0, .worker 0, .worker 0, .shutdown, .notifyAll, .worker 0, .worker 0]

theorem shutdown_stuck :
    Exists fun final : ThreadPool Unit =>
      Run (Stepping next) (init 1) unsupplied final ∧ final.Stuck := by
  have executed : (execute next (init 1 : ThreadPool Unit) unsupplied).map
      (fun final => (final.shutdown, final.workers, final.queue)) = some (true, [.waiting], []) := by
    decide +kernel
  rcases Run.of_execute_map executed with ⟨final, run, shown⟩
  simp only [Prod.mk.injEq] at shown
  rcases shown with ⟨closed, workers, empty⟩
  refine ⟨final, run, closed, ?_, ?_⟩
  · rw [workers]
    exact List.mem_singleton_self _
  · intro actions later continued
    exact continued.invariant (fun _ _ _ empty taken => queue_empty_step empty taken) empty

end ThreadPool

end

end Iocp
end ServerTech
