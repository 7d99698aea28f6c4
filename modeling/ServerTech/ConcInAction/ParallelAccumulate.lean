import Mathlib.Algebra.BigOperators.Group.List.Basic
import ServerTech.Foundation.Transition

namespace ServerTech
namespace ConcInAction

open Transition

/-!
# The parallel sum

`parallel_accumulate` cuts a range into blocks, starts a thread for every block
but the last one, adds up the last block itself, joins the threads and adds up
the results.  A thread may add up its block at any time after it was started,
so a run is any order of the steps of the threads and of the caller.

The vector of threads has a slot for every block, the last one included, and
every slot is joined.  The thread in the last slot was never started, and
`join` throws for such a thread.

Positions in the range are natural numbers.  Results and threads are functions
of the block number, of which the first `num_threads` are the vectors.
-/

variable {T : Type}

/-- `std::accumulate`. -/
def accumulate [AddMonoid T] (values : List T) (init : T) : T :=
  values.foldl (fun sum value => sum + value) init

theorem accumulate_eq [AddMonoid T] (values : List T) (init : T) : accumulate values init = init + values.sum := by
  induction values generalizing init with
  | nil => exact (add_zero init).symm
  | cons value values inductionHypothesis =>
      rw [List.sum_cons, ← add_assoc]
      exact inductionHypothesis (init + value)

theorem accumulate_flatten [AddMonoid T] (parts : List (List T)) (init : T) :
    accumulate (parts.map fun part => accumulate part 0) init = accumulate parts.flatten init := by
  have sums : (fun part : List T => accumulate part 0) = List.sum := by
    funext part
    rw [accumulate_eq, zero_add]
  rw [accumulate_eq, accumulate_eq, sums, List.sum_flatten]

/-- The arguments, and what `std::thread::hardware_concurrency` returns. -/
structure Call (T : Type) where
  range : List T
  init : T
  hardwareConcurrency : Nat

namespace Call

/-! ## The blocks -/

def length (call : Call T) : Nat :=
  call.range.length

def minPerThread : Nat :=
  25

def maxThreads (call : Call T) : Nat :=
  (call.length + minPerThread - 1) / minPerThread

def numThreads (call : Call T) : Nat :=
  min (if call.hardwareConcurrency ≠ 0 then call.hardwareConcurrency else 2) call.maxThreads

def blockSize (call : Call T) : Nat :=
  call.length / call.numThreads

/-- The elements between two positions. -/
def between (call : Call T) (first last : Nat) : List T :=
  (call.range.drop first).take (last - first)

/-- The end of a block.  The last block takes the remainder of the division. -/
def blockEnd (call : Call T) (i : Nat) : Nat :=
  if i = call.numThreads - 1 then call.length else (i + 1) * call.blockSize

def block (call : Call T) (i : Nat) : List T :=
  call.between (i * call.blockSize) (call.blockEnd i)

/-- Every block but the last one has the same size. -/
theorem between_block {call : Call T} {i : Nat} (early : i < call.numThreads - 1) :
    call.between (i * call.blockSize) ((i + 1) * call.blockSize) = call.block i := by
  rw [block, blockEnd, if_neg (Nat.ne_of_lt early)]

theorem between_last (call : Call T) :
    call.between ((call.numThreads - 1) * call.blockSize) call.length =
      call.block (call.numThreads - 1) := by
  rw [block, blockEnd, if_pos rfl]

theorem numThreads_pos {call : Call T} (some_ : call.range ≠ []) : 0 < call.numThreads := by
  have length : 0 < call.length := List.length_pos_iff.mpr some_
  have threads : 0 < call.maxThreads := by
    unfold maxThreads minPerThread
    omega
  unfold numThreads
  split <;> omega

/-- Blocks of one size, without the remainder, are the beginning of the list. -/
theorem blocks_take (values : List T) (size count : Nat) :
    ((List.range count).map fun i => (values.drop (i * size)).take size).flatten =
      values.take (count * size) := by
  induction count with
  | zero => rw [Nat.zero_mul, List.take_zero, List.range_zero, List.map_nil, List.flatten_nil]
  | succ count inductionHypothesis =>
      rw [List.range_succ, List.map_append, List.flatten_append, inductionHypothesis,
        Nat.succ_mul, List.take_add, List.map_singleton, List.flatten_singleton]

/-- The blocks are the range, in order. -/
theorem blocks_partition (call : Call T) :
    ((List.range call.numThreads).map call.block).flatten = call.range := by
  by_cases empty : call.range = []
  · have blocks : call.block = fun _ => [] := by
      funext i
      rw [block, between, empty, List.drop_nil, List.take_nil]
    rw [blocks, empty]
    simp
  · rcases Nat.exists_eq_add_one_of_ne_zero (Nat.ne_of_gt (numThreads_pos empty)) with ⟨count, threads⟩
    have last : call.block count = call.range.drop (count * call.blockSize) := by
      rw [block, between, blockEnd, threads, Nat.add_sub_cancel, if_pos rfl, length,
        List.take_of_length_le (Nat.le_of_eq List.length_drop)]
    have others : (List.range count).map call.block =
        (List.range count).map fun i => (call.range.drop (i * call.blockSize)).take call.blockSize := by
      refine List.map_congr_left ?_
      intro i member
      have before := List.mem_range.mp member
      rw [block, between, blockEnd, threads, Nat.add_sub_cancel, if_neg (Nat.ne_of_lt before), Nat.succ_mul,
        Nat.add_sub_cancel_left]
    rw [threads, List.range_succ, List.map_append, List.flatten_append, others, blocks_take,
      List.map_singleton, List.flatten_singleton, last, List.take_append_drop]

end Call

/-! ## The threads -/

/-- A `std::thread`: without a thread of execution, running `accumulate_block`
between two positions, at its end, or joined. -/
inductive Slot where
  | vacant
  | running (first last : Nat)
  | finished
  | joined
  deriving DecidableEq, Repr

/-- Where the caller is: in the loop that starts the threads, in the one that
joins them, or out of the function. -/
inductive Stage (T : Type) where
  | starting (i : Nat)
  | joining (i : Nat)
  | returned (value : T)
  | thrown
  deriving DecidableEq, Repr

/-- The variables of the call, and the slots that `join` was called on. -/
structure Running (T : Type) where
  blockStart : Nat
  results : Nat -> T
  threads : Nat -> Slot
  joins : List Nat
  stage : Stage T

/-- Who takes the next step. -/
inductive Turn where
  | caller
  | thread (i : Nat)
  deriving DecidableEq, Repr

namespace Call

variable [AddMonoid T]

/-- `accumulate_block`: the new value of `result`. -/
def accumulateBlock (call : Call T) (first last : Nat) (result : T) : T :=
  accumulate (call.between first last) result

/-- The call up to its first loop. -/
def start (call : Call T) : Running T where
  blockStart := 0
  results := fun _ => 0
  threads := fun _ => .vacant
  joins := []
  stage := if call.length = 0 then .returned call.init else .starting 0

def callerNext (call : Call T) (s : Running T) : Option (Running T) :=
  match s.stage with
  | .starting i =>
      if i ≠ call.numThreads - 1 then
        let blockEnd := s.blockStart + call.blockSize
        some { s with
          threads := Function.update s.threads i (.running s.blockStart blockEnd)
          blockStart := blockEnd
          stage := .starting (i + 1) }
      else
        some { s with
          results := Function.update s.results i
            (call.accumulateBlock s.blockStart call.length (s.results i))
          stage := .joining 0 }
  | .joining i =>
      if i = call.numThreads then
        some { s with
          stage := .returned (accumulate ((List.range call.numThreads).map s.results) call.init) }
      else
        match s.threads i with
        | .running _ _ => none
        | .finished =>
            some { s with
              threads := Function.update s.threads i .joined
              joins := s.joins ++ [i]
              stage := .joining (i + 1) }
        | .vacant | .joined => some { s with joins := s.joins ++ [i], stage := .thrown }
  | .returned _ | .thrown => none

def threadNext (call : Call T) (s : Running T) (i : Nat) : Option (Running T) :=
  match s.threads i with
  | .running first last =>
      some { s with
        results := Function.update s.results i (call.accumulateBlock first last (s.results i))
        threads := Function.update s.threads i .finished }
  | _ => none

def next (call : Call T) (s : Running T) : Turn -> Option (Running T)
  | .caller => call.callerNext s
  | .thread i => call.threadNext s i

/-! ## What is expected -/

/-- Every run can be continued to the return of the sequential sum, and no run
is longer than some bound.  The threads work on the blocks of a partition of
the range.  `join` is called at most once on a thread, and only on threads that
were started; at the return all of them have been joined. -/
structure Correct (call : Call T) : Prop where
  partition : ((List.range call.numThreads).map call.block).flatten = call.range
  bounded : Exists fun bound => forall turns s, Run (Stepping call.next) call.start turns s ->
    turns.length ≤ bound
  safe : forall turns s, Run (Stepping call.next) call.start turns s ->
    s.stage ≠ .thrown ∧ s.joins.Nodup ∧ (forall i, i ∈ s.joins -> s.threads i ≠ .vacant) ∧
      forall i first last, s.threads i = .running first last -> call.between first last = call.block i
  completes : forall turns s, Run (Stepping call.next) call.start turns s ->
    Exists fun further => Exists fun final => Run (Stepping call.next) s further final ∧
      final.stage = .returned (accumulate call.range call.init) ∧
      forall i, final.threads i ≠ .vacant -> final.threads i = .joined ∧ i ∈ final.joins

/-! ## What happens -/

/-- A thread that was started and not yet joined. -/
def Live (call : Call T) (s : Running T) (i : Nat) : Prop :=
  (s.threads i = .running (i * call.blockSize) ((i + 1) * call.blockSize) ∧ s.results i = 0) ∨
    (s.threads i = .finished ∧ s.results i = accumulate (call.block i) 0)

/-- A thread that was joined, with its result. -/
def Joined (call : Call T) (s : Running T) (i : Nat) : Prop :=
  s.threads i = .joined ∧ s.results i = accumulate (call.block i) 0

/-- The caller is in the first loop and has started the threads below `i`. -/
structure Starting (call : Call T) (s : Running T) (i : Nat) : Prop where
  stage : s.stage = .starting i
  inside : i < call.numThreads
  position : s.blockStart = i * call.blockSize
  uncalled : s.joins = []
  live : forall j, j < i -> call.Live s j
  vacant : forall j, i ≤ j -> s.threads j = .vacant ∧ s.results j = 0

/-- The caller has added up the last block, and has joined the threads below
`i`.  The last slot is vacant. -/
structure Joining (call : Call T) (s : Running T) (i : Nat) : Prop where
  joins : s.joins = List.range i
  joined : forall j, j < i -> j < call.numThreads - 1 -> call.Joined s j
  live : forall j, i ≤ j -> j < call.numThreads - 1 -> call.Live s j
  vacant : forall j, call.numThreads - 1 ≤ j -> s.threads j = .vacant
  own : s.results (call.numThreads - 1) = accumulate (call.block (call.numThreads - 1)) 0

/-- How far a call on a range with elements has come.  It does not return. -/
inductive Progress (call : Call T) (s : Running T) : Prop
  | starting {i : Nat} : call.Starting s i -> Progress call s
  | joining {i : Nat} : s.stage = .joining i -> i < call.numThreads -> call.Joining s i ->
      Progress call s
  | thrown : s.stage = .thrown -> call.Joining s call.numThreads -> Progress call s

variable {call : Call T} {s t : Running T}

theorem Live.kept {i : Nat} (live : call.Live s i) (threads : t.threads i = s.threads i)
    (results : t.results i = s.results i) : call.Live t i := by
  unfold Live
  rw [threads, results]
  exact live

theorem Joined.kept {i : Nat} (joined : call.Joined s i) (threads : t.threads i = s.threads i)
    (results : t.results i = s.results i) : call.Joined t i := by
  unfold Joined
  rw [threads, results]
  exact joined

theorem start_progress (some_ : call.range ≠ []) : call.Progress call.start := by
  have length : call.length ≠ 0 := fun none_ => some_ (List.length_eq_zero_iff.mp none_)
  exact .starting {
    stage := if_neg length
    inside := numThreads_pos some_
    position := (Nat.zero_mul _).symm
    uncalled := rfl
    live := fun j before => absurd before (Nat.not_lt_zero j)
    vacant := fun _ _ => ⟨rfl, rfl⟩ }

theorem threadNext_live {i j : Nat} (stepped : call.threadNext s i = some t)
    (early : j < call.numThreads - 1) (live : call.Live s j) : call.Live t j := by
  unfold threadNext at stepped
  cases slot : s.threads i with
  | running first last =>
      rw [slot] at stepped
      cases stepped
      by_cases same : j = i
      · rcases live with ⟨running, zero⟩ | ⟨finished, _⟩
        · refine Or.inr ?_
          rw [same] at running zero early
          rw [slot] at running
          cases running
          rw [same]
          refine ⟨Function.update_self _ _ _, ?_⟩
          refine (Function.update_self _ _ _).trans ?_
          rw [accumulateBlock, between_block early, zero]
        · rw [same, slot] at finished
          cases finished
      · exact live.kept (Function.update_of_ne same _ _) (Function.update_of_ne same _ _)
  | _ =>
      rw [slot] at stepped
      cases stepped

/-- The thread that takes a step was running, and nothing but its own slot and
result changes. -/
theorem threadNext_frame {i : Nat} (stepped : call.threadNext s i = some t) :
    (Exists fun first => Exists fun last => s.threads i = .running first last) ∧
      t.stage = s.stage ∧ t.joins = s.joins ∧ t.blockStart = s.blockStart ∧
      forall j, j ≠ i -> t.threads j = s.threads j ∧ t.results j = s.results j := by
  unfold threadNext at stepped
  cases slot : s.threads i with
  | running first last =>
      rw [slot] at stepped
      cases stepped
      refine ⟨⟨first, last, rfl⟩, rfl, rfl, rfl, ?_⟩
      intro j other
      exact ⟨Function.update_of_ne other _ _, Function.update_of_ne other _ _⟩
  | _ =>
      rw [slot] at stepped
      cases stepped

theorem Starting.threadNext {n i : Nat} (starting : call.Starting s n)
    (stepped : call.threadNext s i = some t) : call.Starting t n := by
  rcases threadNext_frame stepped with ⟨⟨first, last, running⟩, stage, joins, blockStart, frame⟩
  have before : i < n := by
    by_contra late
    have vacant := (starting.vacant i (Nat.le_of_not_lt late)).1
    rw [running] at vacant
    cases vacant
  have inside := starting.inside
  constructor
  · exact stage.trans starting.stage
  · exact inside
  · exact blockStart.trans starting.position
  · exact joins.trans starting.uncalled
  · intro j earlier
    exact threadNext_live stepped (by omega) (starting.live j earlier)
  · intro j later
    rcases frame j (by omega) with ⟨slot, result⟩
    rw [slot, result]
    exact starting.vacant j later

theorem Joining.threadNext {n i : Nat} (joining : call.Joining s n)
    (stepped : call.threadNext s i = some t) : call.Joining t n := by
  rcases threadNext_frame stepped with ⟨⟨first, last, running⟩, stage, joins, blockStart, frame⟩
  have early : i < call.numThreads - 1 := by
    by_contra late
    have vacant := joining.vacant i (Nat.le_of_not_lt late)
    rw [running] at vacant
    cases vacant
  have open_ : n ≤ i := by
    by_contra before
    have joined := (joining.joined i (Nat.lt_of_not_le before) early).1
    rw [running] at joined
    cases joined
  constructor
  · exact joins.trans joining.joins
  · intro j earlier inRange
    rcases frame j (by omega) with ⟨slot, result⟩
    exact (joining.joined j earlier inRange).kept slot result
  · intro j later inRange
    exact threadNext_live stepped inRange (joining.live j later inRange)
  · intro j late
    rw [(frame j (by omega)).1]
    exact joining.vacant j late
  · rw [(frame _ (by omega)).2]
    exact joining.own

theorem threadNext_progress {i : Nat} (progress : call.Progress s)
    (stepped : call.threadNext s i = some t) : call.Progress t := by
  have stage := (threadNext_frame stepped).2.1
  cases progress with
  | starting starting => exact .starting (starting.threadNext stepped)
  | joining at_ inside joining => exact .joining (stage.trans at_) inside (joining.threadNext stepped)
  | thrown at_ joining => exact .thrown (stage.trans at_) (joining.threadNext stepped)

theorem Starting.further {n : Nat} (starting : call.Starting s n) (more : n ≠ call.numThreads - 1) :
    call.Starting { s with
      threads := Function.update s.threads n
        (.running s.blockStart (s.blockStart + call.blockSize))
      blockStart := s.blockStart + call.blockSize
      stage := .starting (n + 1) } (n + 1) := by
  have inside := starting.inside
  have started : s.blockStart + call.blockSize = (n + 1) * call.blockSize := by
    rw [starting.position, Nat.succ_mul]
  constructor
  · rfl
  · omega
  · exact started
  · exact starting.uncalled
  · intro j earlier
    by_cases same : j = n
    · subst same
      refine Or.inl ⟨?_, (starting.vacant j (Nat.le_refl j)).2⟩
      rw [← started, ← starting.position]
      exact Function.update_self _ _ _
    · exact (starting.live j (by omega)).kept (Function.update_of_ne same _ _) rfl
  · intro j later
    have other : j ≠ n := by omega
    refine ⟨?_, (starting.vacant j (by omega)).2⟩
    exact (Function.update_of_ne other _ _).trans (starting.vacant j (by omega)).1

theorem Starting.joining {n : Nat} (starting : call.Starting s n) (last : n = call.numThreads - 1) :
    call.Joining { s with
      results := Function.update s.results n
        (call.accumulateBlock s.blockStart call.length (s.results n))
      stage := .joining 0 } 0 := by
  constructor
  · exact starting.uncalled
  · intro j impossible
    exact absurd impossible (Nat.not_lt_zero j)
  · intro j _ early
    have other : j ≠ n := by omega
    exact (starting.live j (by omega)).kept rfl (Function.update_of_ne other _ _)
  · intro j late
    exact (starting.vacant j (by omega)).1
  · rw [← last]
    refine (Function.update_self _ _ _).trans ?_
    rw [accumulateBlock, starting.position, (starting.vacant n (Nat.le_refl n)).2, last, between_last]

theorem Joining.further {n : Nat} (joining : call.Joining s n) (early : n < call.numThreads - 1)
    (finished : s.results n = accumulate (call.block n) 0) :
    call.Joining { s with
      threads := Function.update s.threads n .joined
      joins := s.joins ++ [n]
      stage := .joining (n + 1) } (n + 1) := by
  constructor
  · rw [joining.joins, List.range_succ]
  · intro j earlier inRange
    by_cases same : j = n
    · subst same
      exact ⟨Function.update_self _ _ _, finished⟩
    · exact (joining.joined j (by omega) inRange).kept (Function.update_of_ne same _ _) rfl
  · intro j later inRange
    have other : j ≠ n := by omega
    exact (joining.live j (by omega) inRange).kept (Function.update_of_ne other _ _) rfl
  · intro j late
    have other : j ≠ n := by omega
    exact (Function.update_of_ne other _ _).trans (joining.vacant j late)
  · exact joining.own

theorem Joining.last {n : Nat} (joining : call.Joining s n) (last : n + 1 = call.numThreads) :
    call.Joining { s with joins := s.joins ++ [n], stage := .thrown } call.numThreads := by
  constructor
  · rw [joining.joins, ← last, List.range_succ]
  · intro j _ inRange
    exact joining.joined j (by omega) inRange
  · intro j late inRange
    omega
  · exact joining.vacant
  · exact joining.own

theorem callerNext_progress (progress : call.Progress s) (stepped : call.callerNext s = some t) :
    call.Progress t := by
  unfold callerNext at stepped
  cases progress with
  | @starting n starting =>
      have inside := starting.inside
      simp only [starting.stage] at stepped
      by_cases more : n ≠ call.numThreads - 1
      · rw [if_pos more] at stepped
        cases stepped
        exact .starting (starting.further more)
      · rw [if_neg more] at stepped
        cases stepped
        exact .joining rfl (by omega) (starting.joining (not_not.mp more))
  | @joining n at_ inside joining =>
      simp only [at_, if_neg (Nat.ne_of_lt inside)] at stepped
      by_cases early : n < call.numThreads - 1
      · rcases joining.live n (Nat.le_refl n) early with ⟨running, _⟩ | ⟨finished, done⟩
        · rw [running] at stepped
          cases stepped
        · rw [finished] at stepped
          cases stepped
          exact .joining rfl (by omega) (joining.further early done)
      · rw [joining.vacant n (Nat.le_of_not_lt early)] at stepped
        cases stepped
        exact .thrown rfl (joining.last (by omega))
  | thrown at_ joining =>
      rw [at_] at stepped
      cases stepped

theorem next_progress {turn : Turn} (progress : call.Progress s) (stepped : call.next s turn = some t) :
    call.Progress t := by
  cases turn with
  | caller => exact callerNext_progress progress stepped
  | thread i => exact threadNext_progress progress stepped

theorem run_progress (some_ : call.range ≠ []) {turns : List Turn}
    (run : Run (Stepping call.next) call.start turns s) : call.Progress s :=
  run.invariant (fun _ _ _ progress stepped => next_progress progress stepped)
    (start_progress some_)

theorem Progress.not_returned (progress : call.Progress s) (value : T) : s.stage ≠ .returned value := by
  cases progress with
  | starting starting => exact fun returned => nomatch starting.stage.symm.trans returned
  | joining at_ => exact fun returned => nomatch at_.symm.trans returned
  | thrown at_ => exact fun returned => nomatch at_.symm.trans returned

/-- Until `join` has thrown, somebody can take a step. -/
theorem Progress.goes_on (progress : call.Progress s) (open_ : s.stage ≠ .thrown) :
    Exists fun turn => Exists fun t => call.next s turn = some t := by
  cases progress with
  | starting starting =>
      refine ⟨.caller, ?_⟩
      simp only [next, callerNext, starting.stage]
      split
      · exact ⟨_, rfl⟩
      · exact ⟨_, rfl⟩
  | @joining n at_ inside joining =>
      by_cases early : n < call.numThreads - 1
      · rcases joining.live n (Nat.le_refl n) early with ⟨running, _⟩ | ⟨finished, _⟩
        · refine ⟨.thread n, ?_⟩
          simp only [next, threadNext, running]
          exact ⟨_, rfl⟩
        · refine ⟨.caller, ?_⟩
          simp only [next, callerNext, at_, if_neg (Nat.ne_of_lt inside), finished]
          exact ⟨_, rfl⟩
      · refine ⟨.caller, ?_⟩
        simp only [next, callerNext, at_, if_neg (Nat.ne_of_lt inside),
          joining.vacant n (Nat.le_of_not_lt early)]
        exact ⟨_, rfl⟩
  | thrown at_ => exact absurd at_ open_

/-- When every slot has been joined, the results add up to the sequential sum. -/
theorem Joining.sum (joining : call.Joining s call.numThreads) :
    accumulate ((List.range call.numThreads).map s.results) call.init =
      accumulate call.range call.init := by
  have sums : (List.range call.numThreads).map s.results =
      ((List.range call.numThreads).map call.block).map fun part => accumulate part 0 := by
    rw [List.map_map]
    refine List.map_congr_left ?_
    intro i member
    have inside := List.mem_range.mp member
    by_cases early : i < call.numThreads - 1
    · exact (joining.joined i inside early).2
    · rw [show i = call.numThreads - 1 by omega]
      exact joining.own
  rw [sums, accumulate_flatten, blocks_partition]

/-- When `join` throws, every thread that was started has been joined once, and
the caller has the sequential sum in parts, which it does not return. -/
theorem thrown_sum (some_ : call.range ≠ []) {turns : List Turn}
    (run : Run (Stepping call.next) call.start turns s) (thrown : s.stage = .thrown) :
    (forall i, s.threads i ≠ .vacant -> s.threads i = .joined) ∧ s.joins.Nodup ∧
      accumulate ((List.range call.numThreads).map s.results) call.init =
        accumulate call.range call.init := by
  cases run_progress some_ run with
  | starting starting => cases starting.stage.symm.trans thrown
  | joining at_ => cases at_.symm.trans thrown
  | thrown at_ joining =>
      refine ⟨?_, ?_, joining.sum⟩
      · intro i started
        by_cases early : i < call.numThreads - 1
        · exact (joining.joined i (by omega) early).1
        · exact absurd (joining.vacant i (Nat.le_of_not_lt early)) started
      · rw [joining.joins]
        exact List.nodup_range

/-! ## The empty range -/

/-- The call on an empty range returns before its first step. -/
theorem run_empty (empty : call.range = []) {turns : List Turn}
    (run : Run (Stepping call.next) call.start turns s) : turns = [] ∧ s = call.start := by
  have length : call.length = 0 := List.length_eq_zero_iff.mpr empty
  have stopped : forall turn, call.next call.start turn = none := by
    intro turn
    cases turn with
    | caller =>
        have stage : call.start.stage = .returned call.init := if_pos length
        simp only [next, callerNext, stage]
    | thread i => rfl
  induction run with
  | refl => exact ⟨rfl, rfl⟩
  | snoc earlier last inductionHypothesis =>
      rw [inductionHypothesis.2] at last
      rw [Stepping, stopped] at last
      cases last

/-- The parallel sum does what it should exactly on the empty range, whatever
the initial value and the number of hardware threads are. -/
theorem correct_iff (call : Call T) : call.Correct <-> call.range = [] := by
  constructor
  · intro correct
    by_contra some_
    rcases correct.completes [] call.start (.refl _) with ⟨turns, final, run, returned, _⟩
    exact (run_progress some_ run).not_returned _ returned
  · intro empty
    have length : call.length = 0 := List.length_eq_zero_iff.mpr empty
    have stage : call.start.stage = .returned call.init := if_pos length
    constructor
    · exact call.blocks_partition
    · refine ⟨0, ?_⟩
      intro turns s run
      rw [(run_empty empty run).1]
      exact Nat.le_refl 0
    · intro turns s run
      rw [(run_empty empty run).2, stage]
      exact ⟨nofun, List.nodup_nil, nofun, nofun⟩
    · intro turns s run
      rw [(run_empty empty run).2]
      refine ⟨[], call.start, .refl _, ?_, ?_⟩
      · rw [stage, empty]
        rfl
      · intro i started
        exact absurd rfl started

/-- One element, four hardware threads: the only slot is joined, and its
thread was never started. -/
theorem correct_one : ¬ forall call : Call Int, call.Correct := by
  intro claim
  let call : Call Int := ⟨[7], 0, 4⟩
  have facts : (execute call.next call.start [.caller, .caller]).map (fun s => s.stage) =
      some .thrown := by decide
  rcases Run.of_execute_map facts with ⟨s, run, thrown⟩
  exact ((claim call).safe _ s run).1 thrown

end Call
end ConcInAction
end ServerTech
