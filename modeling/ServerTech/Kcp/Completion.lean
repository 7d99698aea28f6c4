import ServerTech.Foundation.Transition
import ServerTech.Kcp.Chunking

namespace ServerTech
namespace Kcp

open Transition

/-!
# How often a client reports completion

The walk over the frames adds to the shared counter `finished_cnt` in two
places: for a frame with an unexpected sequence number, and for every frame
from the `test_count`-th on.  Neither ends the walk, and the loop that calls
`recv` does not look at `is_running`, so the two can add up.

A run is given pass by pass, so that a call which does not return is covered
up to any point of it.  What counts are the frames that the walk reads.  They
are the frames that were sent as long as the chunks fit; after a chunk that
ends inside a frame the walk reads earlier frames again, with numbers it does
not expect any more.
-/

/-! ## Single passes -/

/-- A client, and the call of `recv` it is in. -/
structure Walk where
  loop : Loop
  active : Option Call

/-- The start of a call, one pass over a frame, and the end of a call. -/
inductive WalkLabel
  | enter (call : Call)
  | pass
  | leave

namespace Walk

/-- A client between two calls. -/
def idle (client : Client) : Walk :=
  ⟨⟨client, 0, 0⟩, none⟩

def next (walk : Walk) : WalkLabel -> Option Walk
  | .enter call =>
      match walk.active with
      | none => some ⟨⟨walk.loop.client.append call, 0, 0⟩, some call⟩
      | some _ => none
  | .pass =>
      match walk.active with
      | none => none
      | some call => (walk.loop.iterate call).map fun following => ⟨following, some call⟩
  | .leave =>
      match walk.active with
      | none => none
      | some call =>
          match walk.loop.iterate call with
          | none => walk.loop.client.settle.map idle
          | some _ => none

/-- The passes of a loop that ends. -/
theorem run_of_loop {call : Call} {fuel : Nat} {l result : Loop}
    (done : l.loop call fuel = some result) :
    Exists fun labels => Run (Stepping next) ⟨l, some call⟩ labels ⟨result, some call⟩ ∧
      result.iterate call = none := by
  induction fuel generalizing l with
  | zero => cases done
  | succ fuel inductionHypothesis =>
      cases passed : l.iterate call with
      | none =>
          rw [Loop.loop_succ_of_none fuel passed] at done
          cases done
          exact ⟨[], .refl _, passed⟩
      | some following =>
          rw [Loop.loop_succ_of_some fuel passed] at done
          rcases inductionHypothesis done with ⟨labels, run, ended⟩
          have first : Stepping next ⟨l, some call⟩ .pass ⟨following, some call⟩ := by
            simp only [Stepping, next, passed, Option.map_some]
          exact ⟨.pass :: labels, .cons first run, ended⟩

/-- A call of `recv` that returns is a run of its passes. -/
theorem run_of_step {before after : Client} {call : Call} (returned : before.step call = some after) :
    Exists fun labels => Run (Stepping next) (idle before) labels (idle after) := by
  rcases Client.step_eq_some.mp returned with ⟨l, walked, settled⟩
  rcases run_of_loop walked with ⟨labels, run, ended⟩
  have last : Stepping next ⟨l, some call⟩ .leave (idle after) := by
    simp only [Stepping, next, ended, settled, Option.map_some]
  exact ⟨.enter call :: (labels ++ [.leave]), .cons rfl (.snoc run last)⟩

/-- Calls of `recv` that return are a run of their passes. -/
theorem run_of_execute {calls : List Call} {before after : Client}
    (executed : execute Client.step before calls = some after) :
    Exists fun labels => Run (Stepping next) (idle before) labels (idle after) := by
  induction calls generalizing before with
  | nil =>
      cases executed
      exact ⟨[], .refl _⟩
  | cons call calls inductionHypothesis =>
      rw [execute] at executed
      cases returned : before.step call with
      | none =>
          rw [returned] at executed
          cases executed
      | some following =>
          rw [returned] at executed
          rcases run_of_step returned with ⟨labels, first⟩
          rcases inductionHypothesis executed with ⟨others, later⟩
          exact ⟨labels ++ others, first.append later⟩

end Walk

/-! ## Counting -/

/-- The frames whose sequence number is not the expected one. -/
def wrongs (numbers : List UInt32) : Nat :=
  numbers.zipIdx.countP fun entry => decide (entry.1 ≠ UInt32.ofNat entry.2)

/-- The frames at which the test count is reached or passed. -/
def finishes (testCount count : Nat) : Nat :=
  (List.range count).countP fun index => decide (testCount ≤ (index + 1) % 2 ^ 32)

theorem wrongs_snoc (numbers : List UInt32) (number : UInt32) :
    wrongs (numbers ++ [number]) =
      wrongs numbers + if number ≠ UInt32.ofNat numbers.length then 1 else 0 := by
  rw [wrongs, List.zipIdx_append, List.countP_append]
  simp only [List.zipIdx_cons, List.zipIdx_nil, List.countP_singleton, Nat.zero_add,
    decide_eq_true_eq]
  rfl

theorem finishes_succ (testCount count : Nat) :
    finishes testCount (count + 1) =
      finishes testCount count + if testCount ≤ (count + 1) % 2 ^ 32 then 1 else 0 := by
  rw [finishes, List.range_succ, List.countP_append, List.countP_singleton]
  simp only [decide_eq_true_eq]
  rfl

/-- The counters of a client agree with the frames it has processed. -/
structure Client.Tallied (testCount : UInt32) (client : Client) : Prop where
  target : client.testCount = testCount
  next : client.next = UInt32.ofNat client.processed.length
  finished : client.finishedCnt =
    wrongs (client.processed.map Frame.sn) + finishes testCount.toNat client.processed.length

namespace Client.Tallied

variable {testCount : UInt32} {client : Client}

/-- Only the frames and the counters matter. -/
theorem congr {other : Client} (tallied : client.Tallied testCount)
    (target : other.testCount = client.testCount) (next : other.next = client.next)
    (finished : other.finishedCnt = client.finishedCnt)
    (processed : other.processed = client.processed) : other.Tallied testCount := by
  refine ⟨target.trans tallied.target, ?_, ?_⟩
  · rw [next, processed]
    exact tallied.next
  · rw [finished, processed]
    exact tallied.finished

theorem append (tallied : client.Tallied testCount) (call : Call) :
    (client.append call).Tallied testCount := by
  unfold Client.append
  split
  · exact tallied
  · exact tallied.congr rfl rfl rfl rfl

theorem settle (tallied : client.Tallied testCount) {after : Client}
    (settled : client.settle = some after) : after.Tallied testCount := by
  unfold Client.settle at settled
  split at settled
  · cases settled
    exact tallied.congr rfl rfl rfl rfl
  · split at settled
    · cases settled
    · cases settled
      exact tallied

/-- A pass counts its frame once in each place. -/
theorem process {l : Loop} (tallied : l.client.Tallied testCount) (call : Call) :
    (l.process call).Tallied testCount := by
  have reached : l.client.testCount ≤ l.client.next + 1 <->
      testCount.toNat ≤ (l.client.processed.length + 1) % 2 ^ 32 := by
    rw [tallied.target, tallied.next, UInt32.le_iff_toNat_le, UInt32.toNat_add,
      UInt32.toNat_ofNat', UInt32.toNat_one, Nat.mod_add_mod]
  have grown : (l.process call).processed.length = l.client.processed.length + 1 :=
    List.length_append
  refine ⟨tallied.target, ?_, ?_⟩
  · rw [grown]
    change l.client.next + 1 = _
    rw [tallied.next]
    exact (UInt32.ofNat_add _ _).symm
  · have numbers : (l.process call).processed.map Frame.sn =
        l.client.processed.map Frame.sn ++ [word (l.front call) 0] := List.map_append
    have expected : UInt32.ofNat (l.client.processed.map Frame.sn).length = l.client.next := by
      rw [List.length_map, tallied.next]
    rw [grown, numbers, wrongs_snoc, finishes_succ, expected]
    change l.client.finishedCnt + _ + _ = _
    rw [tallied.finished]
    simp only [reached]
    omega

end Client.Tallied

theorem new_tallied (testCount : UInt32) (addDelay : Bool) :
    (Client.new testCount addDelay).Tallied testCount :=
  ⟨rfl, rfl, rfl⟩

namespace Walk

theorem next_tallied {testCount : UInt32} {before after : Walk} {label : WalkLabel}
    (tallied : before.loop.client.Tallied testCount) (taken : before.next label = some after) :
    after.loop.client.Tallied testCount := by
  cases label with
  | enter call =>
      cases busy : before.active with
      | none =>
          simp only [next, busy] at taken
          cases taken
          exact tallied.append call
      | some other =>
          simp only [next, busy] at taken
          cases taken
  | pass =>
      cases busy : before.active with
      | none =>
          simp only [next, busy] at taken
          cases taken
      | some call =>
          simp only [next, busy] at taken
          rcases Option.map_eq_some_iff.mp taken with ⟨following, passed, rfl⟩
          have client : following.client = before.loop.process call :=
            (Loop.iterate_cases passed).2.2.1
          rw [client]
          exact tallied.process call
  | leave =>
      cases busy : before.active with
      | none =>
          simp only [next, busy] at taken
          cases taken
      | some call =>
          simp only [next, busy] at taken
          cases ended : before.loop.iterate call with
          | some following =>
              rw [ended] at taken
              cases taken
          | none =>
              rw [ended] at taken
              rcases Option.map_eq_some_iff.mp taken with ⟨client, settled, rfl⟩
              exact tallied.settle settled

/-- At every point of every run the counter is what the frames add up to. -/
theorem run_tallied {testCount : UInt32} {addDelay : Bool} {labels : List WalkLabel} {final : Walk}
    (run : Run (Stepping next) (idle (Client.new testCount addDelay)) labels final) :
    final.loop.client.Tallied testCount :=
  run.invariant (fun _ _ _ tallied taken => next_tallied tallied taken)
    (new_tallied testCount addDelay)

end Walk

/-! ## At most once -/

section Finishing

variable {testCount count : Nat}

theorem finishes_mono {fewer : Nat} (le : fewer ≤ count) :
    finishes testCount fewer ≤ finishes testCount count := by
  induction le with
  | refl => exact Nat.le_refl _
  | step _ inductionHypothesis =>
      rw [finishes_succ]
      omega

/-- A frame at which the test count is reached or passed is counted. -/
theorem finishes_of_reached {index : Nat} (reached : testCount ≤ (index + 1) % 2 ^ 32)
    (processed : index < count) : finishes testCount index + 1 ≤ finishes testCount count := by
  have here : finishes testCount (index + 1) = finishes testCount index + 1 := by
    rw [finishes_succ, if_pos reached]
  rw [← here]
  exact finishes_mono processed

/-- Frames at which the test count is not reached do not change the count. -/
theorem finishes_eq_of_quiet {fewer : Nat} (le : fewer ≤ count)
    (quiet : forall index, fewer ≤ index -> index < count -> (index + 1) % 2 ^ 32 < testCount) :
    finishes testCount count = finishes testCount fewer := by
  induction le with
  | refl => rfl
  | step le inductionHypothesis =>
      have small := quiet _ le (Nat.lt_succ_self _)
      rw [finishes_succ, if_neg (Nat.not_le.mpr small), Nat.add_zero]
      exact inductionHypothesis fun index above below =>
        quiet index above (Nat.lt_succ_of_lt below)

theorem finishes_eq_zero_iff (small : testCount < 2 ^ 32) :
    finishes testCount count = 0 <-> count < max testCount 1 := by
  constructor
  · intro zero
    apply Nat.lt_of_not_le
    intro many
    have counted := @finishes_of_reached testCount count (max testCount 1 - 1)
      (by omega) (by omega)
    omega
  · intro few
    exact finishes_eq_of_quiet (Nat.zero_le count) fun index _ below => by omega

theorem finishes_le_one_iff (small : testCount < 2 ^ 32) :
    finishes testCount count ≤ 1 <->
      count ≤ max testCount 1 ∨ (testCount = 2 ^ 32 - 1 ∧ count < 2 ^ 33 - 1) := by
  have first : finishes testCount (max testCount 1) = 1 := by
    have before : finishes testCount (max testCount 1 - 1) = 0 :=
      (finishes_eq_zero_iff small).mpr (by omega)
    have position : max testCount 1 = max testCount 1 - 1 + 1 := by omega
    rw [position, finishes_succ, before, if_pos (by omega)]
  constructor
  · intro once
    apply Decidable.byContradiction
    intro many
    by_cases last : testCount = 2 ^ 32 - 1
    · have again := @finishes_of_reached testCount count (2 ^ 33 - 2) (by omega) (by omega)
      have earlier := @finishes_mono testCount (2 ^ 33 - 2) (max testCount 1) (by omega)
      omega
    · have again := @finishes_of_reached testCount count (max testCount 1) (by omega) (by omega)
      omega
  · intro few
    by_cases within : count ≤ max testCount 1
    · rw [← first]
      exact finishes_mono within
    · rcases few with few | ⟨last, below⟩
      · exact absurd few within
      · have quiet := @finishes_eq_of_quiet testCount count (max testCount 1) (by omega)
          fun index above under => by omega
        exact Nat.le_of_eq (quiet.trans first)

end Finishing

/-- A client adds to the counter at most once: every frame has the expected
number and the test count is not passed, or one frame does not and the test
count is not reached.  The next number wraps around, so a test count of
2^32 - 1 is passed only with the frame 2^33 - 1. -/
def Once (testCount : Nat) (numbers : List UInt32) : Prop :=
  (wrongs numbers = 0 ∧ (numbers.length ≤ max testCount 1 ∨
    (testCount = 2 ^ 32 - 1 ∧ numbers.length < 2 ^ 33 - 1))) ∨
  (wrongs numbers = 1 ∧ numbers.length < max testCount 1)

instance onceDecidable (testCount : Nat) (numbers : List UInt32) :
    Decidable (Once testCount numbers) :=
  inferInstanceAs (Decidable (_ ∨ _))

theorem Client.Tallied.le_one_iff {testCount : UInt32} {client : Client}
    (tallied : client.Tallied testCount) :
    client.finishedCnt ≤ 1 <-> Once testCount.toNat (client.processed.map Frame.sn) := by
  have small := testCount.toNat_lt
  have none_ := @finishes_eq_zero_iff testCount.toNat client.processed.length small
  have once := @finishes_le_one_iff testCount.toNat client.processed.length small
  rw [tallied.finished, Once, List.length_map, ← none_, ← once]
  omega

/-- A point of a run of a client from its construction. -/
structure Client.Point where
  testCount : UInt32
  addDelay : Bool
  labels : List WalkLabel
  walk : Walk
  run : Run (Stepping Walk.next) (Walk.idle (Client.new testCount addDelay)) labels walk

namespace Client.Point

/-- The sequence numbers of the frames the client has processed. -/
def numbers (point : Client.Point) : List UInt32 :=
  point.walk.loop.client.processed.map Frame.sn

/-- The number of times the client has added to the counter. -/
def finishedCnt (point : Client.Point) : Nat :=
  point.walk.loop.client.finishedCnt

theorem le_one_iff (point : Client.Point) :
    point.finishedCnt ≤ 1 <-> Once point.testCount.toNat point.numbers :=
  (Walk.run_tallied point.run).le_one_iff

/-- When the chunks fit the frames that are sent, the numbers that count are those
of the frames that have arrived completely. -/
theorem exists_of_fits {testCount : UInt32} {addDelay : Bool} {frames : List Frame}
    {calls : List Call} (sized : forall frame, frame ∈ frames -> frame.Sized)
    (some_ : forall call, call ∈ calls -> call.chunk ≠ [])
    (cut : Client.delivered calls <+: Framing.stream encode frames)
    (fits : forall earlier call later, calls = earlier ++ call :: later ->
      Client.Fits frames (Client.delivered earlier) call) :
    Exists fun point : Client.Point => point.testCount = testCount ∧
      execute Client.step (Client.new testCount addDelay) calls = some point.walk.loop.client ∧
      (point.finishedCnt ≤ 1 <-> Once testCount.toNat
        ((Framing.completed encode frames (Client.delivered calls).length).map Frame.sn)) := by
  rcases @Client.follows_of_fits testCount addDelay frames calls sized some_ cut fits calls []
    (List.append_nil _).symm with ⟨client, executed, follows⟩
  rcases Walk.run_of_execute executed with ⟨labels, run⟩
  refine ⟨⟨testCount, addDelay, labels, Walk.idle client, run⟩, rfl, executed, ?_⟩
  rw [← follows.processed]
  exact le_one_iff _

theorem sum_le_length {group : List Client.Point}
    (once : forall point, point ∈ group -> point.finishedCnt ≤ 1) :
    (group.map finishedCnt).sum ≤ group.length := by
  induction group with
  | nil => exact Nat.le_refl 0
  | cons point group inductionHypothesis =>
      have first := once point (List.mem_cons_self ..)
      have later := inductionHypothesis fun other member =>
        once other (List.mem_cons_of_mem _ member)
      rw [List.map_cons, List.sum_cons, List.length_cons]
      omega

/-- At every point of every run, a client has added to the counter at most
once exactly when its frames are of that kind.  If those of every client of a
group are, the counter does not exceed the number of clients. -/
theorem finishedCnt_once_iff (point : Client.Point) (group : List Client.Point) :
    (point.finishedCnt ≤ 1 <-> Once point.testCount.toNat point.numbers) ∧
    ((forall member, member ∈ group -> Once member.testCount.toNat member.numbers) ->
      (group.map finishedCnt).sum ≤ group.length) := by
  refine ⟨le_one_iff point, ?_⟩
  intro once
  exact sum_le_length fun point member => (le_one_iff point).mpr (once point member)

/-- One call with the given frames. -/
def oneCall (frames : List Frame) : Call :=
  ⟨Framing.stream encode frames, [], fun _ => 0, fun _ => 0⟩

/-- An execution that ends with these frames is a point of a run. -/
theorem exists_point {testCount : UInt32} {labels : List WalkLabel} {numbers : List UInt32}
    {finished : Nat}
    (executed : (execute Walk.next (Walk.idle (Client.new testCount false)) labels).map
      (fun walk => (walk.loop.client.processed.map Frame.sn, walk.loop.client.finishedCnt)) =
      some (numbers, finished)) :
    Exists fun point : Client.Point => point.testCount = testCount ∧ point.numbers = numbers ∧
      point.finishedCnt = finished := by
  rcases Run.of_execute_map executed with ⟨walk, run, fields⟩
  exact ⟨⟨testCount, false, labels, walk, run⟩, rfl, congrArg Prod.fst fields,
    congrArg Prod.snd fields⟩

/-- Three clients: one gets the frames it waits for in two calls, one a frame
with another number in one call, and one is not finished. -/
theorem finishedCnt_once_group :
    Exists fun group : List Client.Point =>
      group.map Client.Point.testCount = [2, 3, 2] ∧
      group.map Client.Point.numbers = [[0, 1], [0, 5], [0]] ∧
      group.map finishedCnt = [1, 1, 0] ∧
      (forall point, point ∈ group -> point.finishedCnt ≤ 1) ∧
      (group.map finishedCnt).sum ≤ group.length := by
  rcases @exists_point 2 [.enter (oneCall [⟨0, 0, []⟩]), .pass, .leave,
    .enter (oneCall [⟨1, 0, []⟩]), .pass, .leave] [0, 1] 1 (by decide +kernel) with
    ⟨first, firstCount, firstNumbers, firstFinished⟩
  rcases @exists_point 3 [.enter (oneCall [⟨0, 0, []⟩, ⟨5, 0, []⟩]), .pass, .pass, .leave]
    [0, 5] 1 (by decide +kernel) with ⟨second, secondCount, secondNumbers, secondFinished⟩
  rcases @exists_point 2 [.enter (oneCall [⟨0, 0, []⟩]), .pass, .leave] [0] 0
    (by decide +kernel) with ⟨third, thirdCount, thirdNumbers, thirdFinished⟩
  have once : forall point, point ∈ [first, second, third] ->
      Once point.testCount.toNat point.numbers := by
    simp only [List.forall_mem_cons, firstCount, firstNumbers, secondCount, secondNumbers,
      thirdCount, thirdNumbers]
    exact ⟨by decide +kernel, by decide +kernel, by decide +kernel, List.forall_mem_nil _⟩
  refine ⟨[first, second, third], ?_, ?_, ?_, ?_, ?_⟩
  · simp only [List.map_cons, List.map_nil, firstCount, secondCount, thirdCount]
  · simp only [List.map_cons, List.map_nil, firstNumbers, secondNumbers, thirdNumbers]
  · simp only [List.map_cons, List.map_nil, firstFinished, secondFinished, thirdFinished]
  · intro point member
    exact (finishedCnt_once_iff point []).1.mpr (once point member)
  · exact (finishedCnt_once_iff first [first, second, third]).2 once

/-- A second frame after the one the client waits for, a frame with an
unexpected number in the place of that one, and a frame that is read again
after the next one was cut: these clients add twice. -/
theorem finishedCnt_twice :
    (Exists fun point : Client.Point => point.testCount = 1 ∧ point.numbers = [0, 1] ∧
      point.finishedCnt = 2) ∧
    (Exists fun point : Client.Point => point.testCount = 1 ∧ point.numbers = [7] ∧
      point.finishedCnt = 2) ∧
    (Exists fun point : Client.Point => point.testCount = 2 ∧ point.numbers = [0, 0] ∧
      point.finishedCnt = 2) := by
  refine ⟨?_, ?_, ?_⟩
  · exact @exists_point 1 [.enter (oneCall [⟨0, 0, []⟩, ⟨1, 0, []⟩]), .pass, .pass, .leave] [0, 1] 2
      (by decide +kernel)
  · exact @exists_point 1 [.enter (oneCall [⟨7, 0, []⟩]), .pass, .leave] [7] 2 (by decide +kernel)
  · exact @exists_point 2 [.enter ⟨encode ⟨0, 0, []⟩ ++ (encode ⟨1, 0, [7]⟩).take 12, [],
      fun _ => 0, fun _ => 0⟩, .pass, .leave, .enter ⟨[7], [], fun _ => 0, fun _ => 0⟩, .pass,
      .leave] [0, 0] 2 (by decide +kernel)

end Client.Point

end Kcp
end ServerTech
