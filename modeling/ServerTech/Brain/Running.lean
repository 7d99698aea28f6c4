import ServerTech.Brain.Ordered

namespace ServerTech
namespace Brain

variable {ι σ : Type} [DecidableEq ι]

/-!
# Running nodes

Which nodes return `Running`, and how often a node is updated in one tick.

Most classes return `Running` only when a child does.  `Parallel` also returns it
when all children have ended and neither the failures nor the successes are as
many as its policies ask for, for example with one of each and both policies set
to all children.

No class but the decorators with a loop updates a child more than once.  Without
the two endless ones these are `RetryUntilSuccessful` nodes, which make a further
attempt after a child that is running as after one that has failed.
-/

namespace Node

/-- The classes that return `Running` only for the sake of their children: all
composites but `Parallel` with explicit counts, and some decorators. -/
def passive : Node ι -> Bool
  | .composite _ (.parallelCounts _ _) _ => false
  | .leaf _ | .composite _ _ _ => true
  | .decorator _ .failer _ | .decorator _ .succeeder _ | .decorator _ .inverter _
  | .decorator _ (.retryUntilSuccessful _) _ => true
  | .decorator _ _ _ => false

/-- A tree of such nodes. -/
def Passive (node : Node ι) : Prop :=
  forall sub, sub ∈ node.nodes -> sub.passive = true

instance (node : Node ι) : Decidable node.Passive :=
  inferInstanceAs (Decidable (forall sub, sub ∈ node.nodes -> sub.passive = true))

end Node

/-- A parallel node whose children have all ended, with too few failures and too
few successes for its policies. -/
structure Undecided (failp : FailurePolicy) (succp : SuccessPolicy) (size : Nat) (log : Log ι) : Prop where
  ended : forall call, call ∈ log.calls -> call.status ≠ .running
  failures : log.calls.countP (fun call => call.status = .failure) < failp.minCount size
  successes : log.calls.countP (fun call => call.status = .success) < succp.minCount size

/-! ## The statuses of the nodes -/

section Statuses

variable {setting : Setting ι σ} {fuel : Nat} {self : ι} {children : List (Node ι)} {child : Node ι}
  {w final : World ι σ} {status through : Status} {calls : List (Log ι)}

theorem ordered_running (other : through ≠ .running)
    (returned : ordered through self (children.map (Node.update setting fuel)) w =
      some ((.running, calls), final)) :
    Exists fun call => call ∈ calls ∧ call.status = .running := by
  have looped := (ordered_eq_some returned).2
  rw [← List.map_drop] at looped
  rcases inOrder_returned looped with whole | early
  · exact absurd whole.goesOn.symm other
  · rcases early.last with ⟨earlier, last, rfl, same, _⟩
    exact ⟨last, List.mem_append_right _ List.mem_cons_self, same⟩

theorem ifElse_status
    (returned : ifElse (children.map (Node.update setting fuel)) w = some ((status, calls), final)) :
    Exists fun call => call ∈ calls ∧ call.status = status := by
  match children with
  | [] | [_] | [_, _] | _ :: _ :: _ :: _ :: _ => cases returned
  | [first, second, third] =>
      rcases Program.bind_eq_some returned with ⟨⟨s, log⟩, middle, ticked, after⟩
      simp only at after
      split at after
      · rcases Program.bind_eq_some after with ⟨⟨t, chosen⟩, _, taken, ended⟩
        cases ended
        exact ⟨chosen, List.mem_cons_of_mem _ List.mem_cons_self, (Node.update_log taken).2⟩
      · rcases Program.bind_eq_some after with ⟨⟨t, chosen⟩, _, taken, ended⟩
        cases ended
        exact ⟨chosen, List.mem_cons_of_mem _ List.mem_cons_self, (Node.update_log taken).2⟩

/-- The logs have the statuses that the children returned. -/
theorem updateAll_statuses {results : List (Status × Log ι)}
    (returned : updateAll (children.map (Node.update setting fuel)) w = some (results, final)) :
    forall result, result ∈ results -> result.2.status = result.1 := by
  induction children generalizing w results with
  | nil =>
      cases returned
      exact fun _ member => nomatch member
  | cons child children inductionHypothesis =>
      rcases Program.bind_eq_some returned with ⟨⟨s, log⟩, middle, ticked, after⟩
      rcases Program.bind_eq_some after with ⟨others, _, rest, ended⟩
      cases ended
      intro result member
      rcases List.mem_cons.mp member with rfl | later
      · exact (Node.update_log ticked).2
      · exact inductionHypothesis rest result later

theorem priority_status
    (returned : priority (children.map (Node.update setting fuel)) w = some ((status, calls), final)) :
    Exists fun call => call ∈ calls ∧ call.status = status := by
  unfold priority at returned
  cases children with
  | nil => cases returned
  | cons first others =>
      rcases Program.bind_eq_some returned with ⟨⟨s, log⟩, middle, ticked, after⟩
      simp only at after
      split at after
      · cases after
        exact ⟨log, List.mem_cons_self, (Node.update_log ticked).2⟩
      · rcases Program.bind_eq_some after with ⟨results, _, rest, ended⟩
        cases ended
        exact ⟨log, List.mem_cons_self, (Node.update_log ticked).2⟩

omit [DecidableEq ι] in
theorem countP_statuses {results : List (Status × Log ι)}
    (statuses : forall result, result ∈ results -> result.2.status = result.1) (wanted : Status) :
    (results.map Prod.snd).countP (fun call => call.status = wanted) =
      results.countP fun result => result.1 = wanted := by
  rw [List.countP_map]
  apply List.countP_congr
  intro result member
  simp only [Function.comp_apply, statuses result member]

/-- A parallel node with policies that returns `Running` has a running child or
is undecided. -/
theorem parallel_running {failp : FailurePolicy} {succp : SuccessPolicy} {entry : Int}
    (returned : parallel (failp.minCount children.length) (succp.minCount children.length)
      (children.map (Node.update setting fuel)) w = some ((.running, calls), final)) :
    (Exists fun call => call ∈ calls ∧ call.status = .running) ∨
      Undecided failp succp children.length (.inner self entry .running calls) := by
  unfold parallel at returned
  split at returned
  · cases returned
  · rcases Program.bind_eq_some returned with ⟨results, _, rest, ended⟩
    have statuses := updateAll_statuses rest
    rcases Prod.mk.inj (Option.some.inj ended) with ⟨pair, _⟩
    rcases Prod.mk.inj pair with ⟨chosen, rfl⟩
    by_cases runs : Exists fun call => call ∈ results.map Prod.snd ∧ call.status = .running
    · exact .inl runs
    · right
      split at chosen
      · cases chosen
      · rename_i failures
        split at chosen
        · cases chosen
        · rename_i successes
          refine ⟨fun call member same => runs ⟨call, member, same⟩, ?_, ?_⟩
          · change (((results.map Prod.snd).countP _ : Nat) : Int) < _
            rw [countP_statuses statuses]
            exact Int.not_le.mp failures
          · change (((results.map Prod.snd).countP _ : Nat) : Int) < _
            rw [countP_statuses statuses]
            exact Int.not_le.mp successes

theorem retryUntilSuccessful_status {num : Nat}
    (returned : retryUntilSuccessful (child.update setting fuel) num w = some ((status, calls), final)) :
    Exists fun call => call ∈ calls ∧ call.status = status := by
  induction num generalizing w status calls with
  | zero => cases returned
  | succ num inductionHypothesis =>
      rcases Program.bind_eq_some returned with ⟨⟨s, log⟩, middle, ticked, after⟩
      simp only at after
      split at after
      · cases after
        exact ⟨log, List.mem_cons_self, (Node.update_log ticked).2⟩
      · rcases Program.bind_eq_some after with ⟨⟨t, logs⟩, _, rest, ended⟩
        cases ended
        rcases inductionHypothesis rest with ⟨call, member, same⟩
        exact ⟨call, List.mem_cons_of_mem _ member, same⟩

theorem inverter_running
    (returned : inverter (child.update setting fuel) w = some ((.running, calls), final)) :
    Exists fun call => call ∈ calls ∧ call.status = .running := by
  rcases Program.bind_eq_some returned with ⟨⟨s, log⟩, middle, ticked, ended⟩
  rcases Prod.mk.inj (Option.some.inj ended) with ⟨pair, _⟩
  rcases Prod.mk.inj pair with ⟨inverted, rfl⟩
  refine ⟨log, List.mem_cons_self, (Node.update_log ticked).2.trans ?_⟩
  cases s <;> first | rfl | cases inverted

theorem returning_status {s : Status}
    (returned : returning s (child.update setting fuel) w = some ((status, calls), final)) : status = s := by
  rcases Program.bind_eq_some returned with ⟨_, _, _, ended⟩
  cases ended
  rfl

/-- A node that returns `Running` has a running child or is an undecided parallel
node. -/
theorem execute_running {node : Node ι} {entry : Int} (passive : node.passive = true)
    (returned : node.execute setting fuel w = some ((.running, calls), final)) :
    (Exists fun call => call ∈ calls ∧ call.status = .running) ∨
      Exists fun failp => Exists fun succp => Exists fun children =>
        node = .composite node.self (.parallel failp succp) children ∧
          Undecided failp succp children.length (.inner node.self entry .running calls) := by
  cases node with
  | leaf self => cases returned
  | composite self kind children =>
      rw [Node.execute, Node.updates_eq] at returned
      cases kind with
      | selector withStateful => exact .inl (ordered_running (by decide) returned)
      | sequence withStateful => exact .inl (ordered_running (by decide) returned)
      | ifElse => exact .inl (ifElse_status returned)
      | priority => exact .inl (priority_status returned)
      | parallelCounts failc succc => cases passive
      | parallel failp succp =>
          rw [CompositeKind.execute, List.length_map] at returned
          rcases parallel_running returned with runs | undecided
          · exact .inl runs
          · exact .inr ⟨failp, succp, children, rfl, undecided⟩
  | decorator self kind child =>
      rw [Node.execute] at returned
      cases kind with
      | failer => cases returning_status returned
      | succeeder => cases returning_status returned
      | inverter => exact .inl (inverter_running returned)
      | retryUntilSuccessful attemps => exact .inl (retryUntilSuccessful_status returned)
      | _ => cases passive

/-- An update returns `Running` only if a leaf that was executed did, or if some
parallel node was undecided. -/
theorem running_explained {node : Node ι} {log : Log ι} (passive : node.Passive)
    (updated : node.update setting fuel w = some ((.running, log), final)) :
    (Exists fun leaf => (leaf, Status.running) ∈ log.leaves) ∨
      Exists fun exit => exit ∈ log.exits ∧ Exists fun failp => Exists fun succp =>
        Exists fun children => .composite exit.node (.parallel failp succp) children ∈ node.nodes ∧
          Undecided failp succp children.length exit := by
  induction node using Node.induction generalizing w log final with
  | step node inductionHypothesis =>
      cases Node.update_updated updated with
      | leaf executed reset => exact .inl ⟨_, List.mem_singleton_self _⟩
      | inner executed picks reset =>
          rename_i calls middle
          rcases execute_running (passive node (Node.self_mem_nodes node)) executed with
            ⟨call, called, runs⟩ | ⟨failp, succp, children, same, undecided⟩
          · rcases Node.called_updated updated called with ⟨child, member, before, s, after, ticked⟩
            cases (Node.update_log ticked).2.symm.trans runs
            rcases inductionHypothesis child member (Node.forall_below passive member) ticked with
              ⟨leaf, running⟩ | ⟨exit, made, failp, succp, children, below, undecided⟩
            · left
              rw [Log.leaves_inner]
              exact ⟨leaf, List.mem_flatMap.mpr ⟨call, called, running⟩⟩
            · right
              refine ⟨exit, ?_, failp, succp, children, Node.child_nodes member below, undecided⟩
              exact Log.mem_exits.mpr (.inl ⟨call, called, made⟩)
          · right
            refine ⟨_, Log.self_mem_exits _, failp, succp, children, ?_, undecided⟩
            change .composite node.self _ _ ∈ node.nodes
            rw [← same]
            exact Node.self_mem_nodes node

end Statuses

/-- A sequence that is running because of its second leaf. -/
theorem running_explained_sequence :
    Exists fun log => Exists fun final : World Nat Unit =>
      (Node.composite 0 (.sequence false) [.leaf 1, .leaf 2]).update
        (.scripted fun name _ => if name = 1 then .success else .running) 0 (World.new ()) =
          some ((.running, log), final) ∧
      ((Exists fun leaf => (leaf, Status.running) ∈ log.leaves) ∨
        Exists fun exit => exit ∈ log.exits ∧ Exists fun failp => Exists fun succp =>
          Exists fun children => .composite exit.node (.parallel failp succp) children ∈
              (Node.composite 0 (.sequence false) [.leaf 1, .leaf 2]).nodes ∧
            Undecided failp succp children.length exit) := by
  have facts : ((Node.composite 0 (.sequence false) [.leaf 1, .leaf 2]).update
      (.scripted fun name (_ : Unit) => if name = 1 then .success else .running) 0 (World.new ())).map
        (fun result => result.1.1) = some .running := by
    decide +kernel
  rcases Option.map_eq_some_iff.mp facts with ⟨⟨⟨status, log⟩, final⟩, updated, rfl⟩
  exact ⟨log, final, updated, running_explained (by decide) updated⟩

/-- A parallel node is running although one leaf has succeeded and the other one
has failed. -/
theorem parallel_without_running :
    Exists fun log => Exists fun final : World Nat Unit =>
      (Node.composite 0 (.parallel .failedOnAll .succeedOnAll) [.leaf 1, .leaf 2]).update
        (.scripted fun name _ => if name = 1 then .success else .failure) 0 (World.new ()) =
          some ((.running, log), final) ∧
      log.leaves = [(1, .success), (2, .failure)] ∧
      ¬ Exists fun leaf => (leaf, Status.running) ∈ log.leaves := by
  have facts : ((Node.composite 0 (.parallel .failedOnAll .succeedOnAll) [.leaf 1, .leaf 2]).update
      (.scripted fun name (_ : Unit) => if name = 1 then .success else .failure) 0 (World.new ())).map
        (fun result => (result.1.1, result.1.2.leaves)) =
      some (.running, [(1, .success), (2, .failure)]) := by
    decide +kernel
  rcases Option.map_eq_some_iff.mp facts with ⟨⟨⟨status, log⟩, final⟩, updated, same⟩
  rcases Prod.mk.inj same with ⟨rfl, leaves⟩
  refine ⟨log, final, updated, leaves, ?_⟩
  rintro ⟨leaf, running⟩
  rw [leaves] at running
  simp only [List.mem_cons, Prod.mk.injEq, reduceCtorEq, and_false, List.not_mem_nil, or_false] at running

/-! ## How often a node is updated -/

namespace Node

/-- The classes without an endless loop. -/
def bounded : Node ι -> Bool
  | .decorator _ .untilSuccess _ | .decorator _ .untilFailure _ => false
  | _ => true

/-- A tree without an endless loop. -/
def Bounded (node : Node ι) : Prop :=
  forall sub, sub ∈ node.nodes -> sub.bounded = true

instance (node : Node ι) : Decidable node.Bounded :=
  inferInstanceAs (Decidable (forall sub, sub ∈ node.nodes -> sub.bounded = true))

/-- The two updates were made in different attempts of a `RetryUntilSuccessful`
node, of which none but the last one has returned `Success`. -/
def Retried (root : Node ι) (log first second : Log ι) : Prop :=
  Exists fun retry => retry ∈ log.exits ∧
    (Exists fun attemps => Exists fun child =>
      .decorator retry.node (.retryUntilSuccessful attemps) child ∈ root.nodes ∧
        retry.calls.length ≤ attemps) ∧
    (Exists fun attempt => Exists fun further => [attempt, further].Sublist retry.calls ∧
      first ∈ attempt.exits ∧ second ∈ further.exits) ∧
    forall call, call ∈ retry.calls.dropLast -> call.status ≠ .success

variable {setting : Setting ι σ} {fuel : Nat} {node root : Node ι} {w final : World ι σ}
  {status : Status} {log : Log ι}

omit [DecidableEq ι] in
theorem Retried.of_call {call first second : Log ι} (retried : Retried root call first second)
    (called : call ∈ log.calls) : Retried root log first second := by
  rcases retried with ⟨retry, made, rest⟩
  exact ⟨retry, Log.mem_exits.mpr (.inl ⟨call, called, made⟩), rest⟩

/-- A further attempt follows only on one that has not returned `Success`. -/
theorem retryUntilSuccessful_attempts {child : Node ι} {num : Nat} {calls : List (Log ι)}
    (returned : retryUntilSuccessful (child.update setting fuel) num w = some ((status, calls), final)) :
    calls.length ≤ num ∧ forall call, call ∈ calls.dropLast -> call.status ≠ .success := by
  induction num generalizing w status calls with
  | zero => cases returned
  | succ num inductionHypothesis =>
      rcases Program.bind_eq_some returned with ⟨⟨s, log⟩, middle, ticked, after⟩
      simp only at after
      split at after
      · cases after
        exact ⟨Nat.succ_le_succ (Nat.zero_le num), fun _ member => nomatch member⟩
      · next again =>
          rcases Program.bind_eq_some after with ⟨⟨t, logs⟩, _, rest, ended⟩
          cases ended
          rcases inductionHypothesis rest with ⟨few, others⟩
          refine ⟨Nat.succ_le_succ few, ?_⟩
          cases logs with
          | nil => exact fun _ member => nomatch member
          | cons next later =>
              rw [List.dropLast_cons_cons]
              refine List.forall_mem_cons.mpr ⟨?_, others⟩
              rw [(update_log ticked).2]
              exact fun success => again (.inl success)

/-- The log of an update has only nodes of the tree. -/
theorem exit_mem_ids (updated : node.update setting fuel w = some ((status, log), final)) {exit : Log ι}
    (made : exit ∈ log.exits) : exit.node ∈ node.ids := by
  rcases exits_updated updated made with ⟨sub, found, _, _, subUpdated⟩
  rw [(update_log subUpdated).1]
  exact List.mem_map_of_mem found

/-- A walk over turns without a common node updates no node twice. -/
theorem picks_apart {self : ι} {turns : List (Node ι)} {calls : List (Log ι)}
    (picks : Picks self (turns.map (update setting fuel)) w calls final)
    (apart : turns.Pairwise fun turn later => turn.ids.Disjoint later.ids) :
    calls.Pairwise fun call later => forall first, first ∈ call.exits ->
      forall second, second ∈ later.exits -> first.node ≠ second.node := by
  generalize same : turns.map (update setting fuel) = ticks at picks
  induction picks generalizing turns with
  | done ticks w => exact .nil
  | skip rest inductionHypothesis =>
      rcases List.map_eq_cons_iff.mp same with ⟨turn, turns, rfl, _, rest⟩
      exact inductionHypothesis (List.pairwise_cons.mp apart).2 rest
  | pick ticked rest inductionHypothesis =>
      rcases List.map_eq_cons_iff.mp same with ⟨turn, turns, rfl, rfl, rfl⟩
      rcases List.pairwise_cons.mp apart with ⟨head, tail⟩
      refine List.pairwise_cons.mpr ⟨?_, inductionHypothesis tail rfl⟩
      intro later called first made second made' equal
      rcases rest.called called with ⟨tick, listed, before, s, after, ticked'⟩
      rcases List.mem_map.mp listed with ⟨other, there, rfl⟩
      apply head other there (exit_mem_ids ticked made)
      rw [equal]
      exact exit_mem_ids ticked' made'
  | own rest inductionHypothesis => exact inductionHypothesis apart same
  | external rest inductionHypothesis => exact inductionHypothesis apart same

/-- The calls of one update have no node in common, or they are attempts. -/
theorem calls_apart {calls : List (Log ι)} (different : node.ids.Nodup) (bounded : node.bounded = true)
    (executed : node.execute setting fuel w = some ((status, calls), final)) :
    (calls.Pairwise fun call later => forall first, first ∈ call.exits ->
      forall second, second ∈ later.exits -> first.node ≠ second.node) ∨
    Exists fun attemps => Exists fun child =>
      node = .decorator node.self (.retryUntilSuccessful attemps) child ∧ calls.length ≤ attemps ∧
        forall call, call ∈ calls.dropLast -> call.status ≠ .success := by
  have picks := execute_picks executed
  cases node with
  | leaf self => cases executed
  | composite self kind children =>
      rw [ids_eq, List.nodup_cons, List.nodup_flatMap] at different
      exact .inl (picks_apart picks different.2.2)
  | decorator self kind child =>
      cases kind with
      | retryUntilSuccessful attemps =>
          exact .inr ⟨attemps, child, rfl, retryUntilSuccessful_attempts executed⟩
      | untilSuccess | untilFailure => cases bounded
      | runner | failer | succeeder | inverter | repeater limit | duration d =>
          exact .inl (picks_apart picks (List.pairwise_singleton _ child))

theorem updated_retried (different : root.ids.Nodup) (bounded : root.Bounded) (member : node ∈ root.nodes)
    (updated : node.update setting fuel w = some ((status, log), final)) :
    log.exits.Pairwise fun first second => first.node = second.node -> Retried root log first second := by
  induction node using Node.induction generalizing w status log final with
  | step node inductionHypothesis =>
      have own := ids_nodup different member
      rw [Log.exits_eq, List.pairwise_append, List.pairwise_flatMap]
      refine ⟨⟨?_, ?_⟩, List.pairwise_singleton _ _, ?_⟩
      · intro call called
        rcases called_updated updated called with ⟨child, listed, before, s, after, made⟩
        have below := (nodes_sublist member).subset (child_nodes listed (self_mem_nodes child))
        apply (inductionHypothesis child listed below made).imp
        exact fun retried same => (retried same).of_call called
      · cases update_updated updated with
        | leaf executed reset => exact .nil
        | inner executed picks reset =>
            rcases calls_apart own (bounded node member) executed with
              apart | ⟨attemps, child, kind, few, failed⟩
            · apply apart.imp
              exact fun apart first made second made' same => absurd same (apart first made second made')
            · rw [List.pairwise_iff_forall_sublist]
              intro attempt further both first made second made' same
              refine ⟨_, Log.self_mem_exits _, ⟨attemps, child, ?_, few⟩,
                ⟨attempt, further, both, made, made'⟩, failed⟩
              change .decorator node.self _ _ ∈ root.nodes
              rw [← kind]
              exact member
      · intro first made last here same
        rcases List.mem_flatMap.mp made with ⟨call, called, inside⟩
        rcases called_updated updated called with ⟨child, listed, before, s, after, ticked⟩
        rw [List.mem_singleton.mp here, (update_log updated).1] at same
        rw [ids_eq, List.nodup_cons] at own
        refine absurd (List.mem_flatMap.mpr ⟨child, listed, ?_⟩) own.1
        rw [← same]
        exact exit_mem_ids ticked inside

/-- In the log of any update made in a tick, a node is there twice only in a
further attempt of a `RetryUntilSuccessful` of the updated subtree. -/
theorem updated_once (different : root.ids.Nodup) (bounded : root.Bounded)
    (updated : root.update setting fuel w = some ((status, log), final)) {exit : Log ι}
    (made : exit ∈ log.exits) :
    exit.exits.Pairwise fun first second =>
      first.node = second.node -> Retried root exit first second := by
  rcases exits_updated updated made with ⟨sub, found, before, after, subUpdated⟩
  exact updated_retried different bounded found subUpdated

/-- Leaves that are running at the first update and succeed later. -/
def recovering : Setting Nat Nat where
  execute _ := Program.external fun count => (if count = 0 then .running else .success, count + 1)
  reset self _ := Context.set self (-1)
  now count := (0, count)

/-- Two attempts, one that is running and one that is not. -/
theorem updated_once_attempts :
    Exists fun log => Exists fun final : World Nat Nat =>
      (decorator 0 (.retryUntilSuccessful 3) (leaf 1)).update
        recovering 0 (World.new 0) =
          some ((.success, log), final) ∧
      log.leaves = [(1, .running), (1, .success)] ∧
      log.exits.Pairwise fun first second => first.node = second.node ->
        Retried (decorator 0 (.retryUntilSuccessful 3) (leaf 1)) log first second := by
  have facts : ((decorator 0 (.retryUntilSuccessful 3) (leaf 1)).update
      recovering 0 (World.new 0)).map
        (fun result => (result.1.1, result.1.2.leaves)) =
      some (.success, [(1, .running), (1, .success)]) := by
    decide +kernel
  rcases Option.map_eq_some_iff.mp facts with ⟨⟨⟨status, log⟩, final⟩, updated, same⟩
  rcases Prod.mk.inj same with ⟨rfl, leaves⟩
  exact ⟨log, final, updated, leaves, updated_once (by decide) (by decide) updated
    (Log.self_mem_exits log)⟩

/-- A running leaf that is updated twice in one tick. -/
theorem retry_of_running :
    Exists fun log => Exists fun final : World Nat Unit =>
      (decorator 0 (.retryUntilSuccessful 2) (leaf 1)).update (.scripted fun _ _ => .running) 0
        (World.new ()) = some ((.running, log), final) ∧
      log.leaves = [(1, .running), (1, .running)] ∧
      ¬ log.exits.Pairwise fun first second => first.status = .running -> first.node ≠ second.node := by
  have facts : ((decorator 0 (.retryUntilSuccessful 2) (leaf 1)).update
      (.scripted fun _ (_ : Unit) => .running) 0 (World.new ())).map (fun result =>
        (result.1.1, result.1.2.leaves, decide (result.1.2.exits.Pairwise fun first second =>
          first.status = .running -> first.node ≠ second.node))) =
      some (.running, [(1, .running), (1, .running)], false) := by
    decide +kernel
  rcases Option.map_eq_some_iff.mp facts with ⟨⟨⟨status, log⟩, final⟩, updated, same⟩
  rcases Prod.mk.inj same with ⟨rfl, rest⟩
  rcases Prod.mk.inj rest with ⟨leaves, violated⟩
  exact ⟨log, final, updated, leaves, of_decide_eq_false violated⟩

end Node

end Brain
end ServerTech
