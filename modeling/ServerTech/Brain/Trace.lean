import ServerTech.Brain.Model

namespace ServerTech
namespace Brain

variable {ι σ : Type}

/-!
# What an update does

Every `execute` of the library is a walk over a list of updates: it takes some of
them in order, may skip others, and in between changes its own entry or reads the
clock.  The list is that of the children for a composite, and repeats the child
for a decorator with a loop.  `Picks` is this walk, and it is all that later
results use of an `execute` unless they are about the status it returns.

`Updated` says what an update that returned went through.  The log of an update
lists the updates that have ended, in the order in which they ended.
-/

namespace Node

def self : Node ι -> ι
  | .leaf self | .composite self _ _ | .decorator self _ _ => self

def children : Node ι -> List (Node ι)
  | .leaf _ => []
  | .composite _ _ children => children
  | .decorator _ _ child => [child]

mutual

/-- The nodes of a tree, each before its children. -/
def nodes : Node ι -> List (Node ι)
  | .leaf self => [.leaf self]
  | .composite self kind children => .composite self kind children :: nodesAll children
  | .decorator self kind child => .decorator self kind child :: nodes child

def nodesAll : List (Node ι) -> List (Node ι)
  | [] => []
  | child :: children => nodes child ++ nodesAll children

end

/-- The names of a node and its descendants. -/
def ids (node : Node ι) : List ι :=
  node.nodes.map self

/-- An induction over a tree has the result for all children of a node. -/
theorem induction {motive : Node ι -> Prop}
    (step : forall node : Node ι, (forall child, child ∈ node.children -> motive child) -> motive node)
    (node : Node ι) : motive node :=
  match node with
  | .leaf self => step (.leaf self) fun _ member => nomatch member
  | .composite self kind children =>
      step (.composite self kind children) fun child (_ : child ∈ children) => induction step child
  | .decorator self kind child =>
      step (.decorator self kind child) fun other member =>
        List.mem_singleton.mp member ▸ induction step child

theorem nodesAll_eq (children : List (Node ι)) : nodesAll children = children.flatMap nodes := by
  induction children with
  | nil => rfl
  | cons child children inductionHypothesis =>
      rw [nodesAll, inductionHypothesis, List.flatMap_cons]

theorem nodes_eq (node : Node ι) : node.nodes = node :: node.children.flatMap nodes := by
  cases node with
  | leaf self => rfl
  | composite self kind children => rw [nodes, nodesAll_eq, Node.children]
  | decorator self kind child => rw [nodes, Node.children, List.flatMap_singleton]

theorem ids_eq (node : Node ι) : node.ids = node.self :: node.children.flatMap ids := by
  rw [ids, nodes_eq, List.map_cons, List.map_flatMap]
  rfl

theorem self_mem_nodes (node : Node ι) : node ∈ node.nodes := by
  rw [nodes_eq]
  exact List.mem_cons_self

theorem self_mem_ids (node : Node ι) : node.self ∈ node.ids := by
  rw [ids_eq]
  exact List.mem_cons_self

theorem child_nodes {node child other : Node ι} (member : child ∈ node.children)
    (below : other ∈ child.nodes) : other ∈ node.nodes := by
  rw [nodes_eq]
  exact List.mem_cons_of_mem _ (List.mem_flatMap.mpr ⟨child, member, below⟩)

/-- A property of every node of a tree, for the node and for its children. -/
theorem forall_nodes {node : Node ι} {P : Node ι -> Prop} :
    (forall sub, sub ∈ node.nodes -> P sub) ↔
      P node ∧ forall child, child ∈ node.children -> forall sub, sub ∈ child.nodes -> P sub := by
  rw [nodes_eq, List.forall_mem_cons, List.forall_mem_flatMap]

theorem forall_below {node child : Node ι} {P : Node ι -> Prop}
    (all : forall sub, sub ∈ node.nodes -> P sub) (member : child ∈ node.children) :
    forall sub, sub ∈ child.nodes -> P sub :=
  (forall_nodes.mp all).2 child member

theorem child_ids {node child : Node ι} (member : child ∈ node.children) : child.ids ⊆ node.ids := by
  intro name below
  rw [ids_eq]
  exact List.mem_cons_of_mem _ (List.mem_flatMap.mpr ⟨child, member, below⟩)

end Node

namespace Log

def node : Log ι -> ι
  | .leaf node _ | .inner node _ _ _ => node

def status : Log ι -> Status
  | .leaf _ status | .inner _ _ status _ => status

/-- The entry that the node found in the context. -/
def entry : Log ι -> Int
  | .leaf _ _ => 0
  | .inner _ entry _ _ => entry

def calls : Log ι -> List (Log ι)
  | .leaf _ _ => []
  | .inner _ _ _ calls => calls

mutual

/-- The updates that ended, in the order in which they ended. -/
def exits : Log ι -> List (Log ι)
  | .leaf node status => [.leaf node status]
  | .inner node entry status calls => exitsAll calls ++ [.inner node entry status calls]

def exitsAll : List (Log ι) -> List (Log ι)
  | [] => []
  | log :: logs => exits log ++ exitsAll logs

end

/-- The status of a leaf that was executed. -/
def executed : Log ι -> Option (ι × Status)
  | .leaf node status => some (node, status)
  | .inner _ _ _ _ => none

/-- The leaves that were executed, in order. -/
def leaves (log : Log ι) : List (ι × Status) :=
  log.exits.filterMap executed

theorem exitsAll_eq (logs : List (Log ι)) : exitsAll logs = logs.flatMap exits := by
  induction logs with
  | nil => rfl
  | cons log logs inductionHypothesis =>
      rw [exitsAll, inductionHypothesis, List.flatMap_cons]

theorem exits_eq (log : Log ι) : log.exits = log.calls.flatMap exits ++ [log] := by
  cases log with
  | leaf node status => rfl
  | inner node entry status calls => rw [exits, exitsAll_eq, Log.calls]

theorem leaves_inner (node : ι) (entry : Int) (status : Status) (calls : List (Log ι)) :
    (Log.inner node entry status calls).leaves = calls.flatMap leaves := by
  rw [leaves, exits_eq, Log.calls, List.filterMap_append, List.filterMap_flatMap]
  exact List.append_nil _

/-- An update in the log ended below the update or is the update itself. -/
theorem mem_exits {log exit : Log ι} :
    exit ∈ log.exits <-> (Exists fun call => call ∈ log.calls ∧ exit ∈ call.exits) ∨ exit = log := by
  rw [exits_eq, List.mem_append, List.mem_flatMap, List.mem_singleton]

theorem self_mem_exits (log : Log ι) : log ∈ log.exits :=
  mem_exits.mpr (.inr rfl)

end Log

/-! ## Walks over updates -/

section Walks

variable [DecidableEq ι]

omit [DecidableEq ι] in
theorem Context.get_eq_some {node : ι} {w final : World ι σ} {entry : Int}
    (returned : Context.get node w = some (entry, final)) :
    entry = (w.cells node).getD 0 ∧ final = w := by
  cases returned
  exact ⟨rfl, rfl⟩

theorem Context.set_eq_some {node : ι} {index : Int} {w final : World ι σ} {u : Unit}
    (returned : Context.set node index w = some (u, final)) :
    final = { w with
      cells := Function.update w.cells node (if index = -1 then none else some index) } := by
  cases returned
  rfl

/-- A walk over a list of updates in order, which may skip some of them, changes
the entry of one node and the environment in between, and may stop early. -/
inductive Picks (self : ι) : List (Tick ι σ) -> World ι σ -> List (Log ι) -> World ι σ -> Prop
  | done (ticks : List (Tick ι σ)) (w : World ι σ) : Picks self ticks w [] w
  | skip {tick : Tick ι σ} {ticks : List (Tick ι σ)} {w final : World ι σ} {calls : List (Log ι)}
      (rest : Picks self ticks w calls final) : Picks self (tick :: ticks) w calls final
  | pick {tick : Tick ι σ} {ticks : List (Tick ι σ)} {w middle final : World ι σ} {status : Status}
      {log : Log ι} {calls : List (Log ι)} (ticked : tick w = some ((status, log), middle))
      (rest : Picks self ticks middle calls final) :
      Picks self (tick :: ticks) w (log :: calls) final
  | own {ticks : List (Tick ι σ)} {w final : World ι σ} {calls : List (Log ι)} {value : Option Int}
      (rest : Picks self ticks { w with cells := Function.update w.cells self value } calls final) :
      Picks self ticks w calls final
  | external {ticks : List (Tick ι σ)} {w final : World ι σ} {calls : List (Log ι)} {outside : σ}
      (rest : Picks self ticks { w with outside := outside } calls final) :
      Picks self ticks w calls final

variable {self : ι} {ticks : List (Tick ι σ)} {tick : Tick ι σ} {w final : World ι σ}
  {status : Status} {calls : List (Log ι)}

theorem Picks.of_drop (count : Nat) (picks : Picks self (ticks.drop count) w calls final) :
    Picks self ticks w calls final := by
  induction ticks generalizing count with
  | nil => rwa [List.drop_nil] at picks
  | cons tick ticks inductionHypothesis =>
      cases count with
      | zero => exact picks
      | succ count => exact .skip (inductionHypothesis count picks)

theorem inOrder_picks {through : Status} {i : Nat}
    (returned : inOrder through self i ticks w = some ((status, calls), final)) :
    Picks self ticks w calls final := by
  induction ticks generalizing i w status calls with
  | nil =>
      cases returned
      exact .done _ _
  | cons tick ticks inductionHypothesis =>
      rcases Program.bind_eq_some returned with ⟨⟨s, log⟩, middle, ticked, after⟩
      by_cases stops : s ≠ through
      · simp only [if_pos stops] at after
        rcases Program.bind_eq_some after with ⟨_, _, stored, ended⟩
        cases ended
        cases Context.set_eq_some stored
        exact .pick ticked (.own (.done _ _))
      · simp only [if_neg stops] at after
        rcases Program.bind_eq_some after with ⟨⟨t, logs⟩, _, rest, ended⟩
        cases ended
        exact .pick ticked (inductionHypothesis rest)

theorem ordered_eq_some {through : Status}
    (returned : ordered through self ticks w = some ((status, calls), final)) :
    ticks ≠ [] ∧ inOrder through self (Context.start ((w.cells self).getD 0) ticks.length)
      (ticks.drop (Context.start ((w.cells self).getD 0) ticks.length)) w =
        some ((status, calls), final) := by
  unfold ordered at returned
  split at returned
  · cases returned
  · rename_i some_
    rcases Program.bind_eq_some returned with ⟨index, _, found, rest⟩
    rcases Context.get_eq_some found with ⟨rfl, rfl⟩
    exact ⟨fun empty => some_ (by rw [empty]; rfl), rest⟩

theorem ordered_picks {through : Status}
    (returned : ordered through self ticks w = some ((status, calls), final)) :
    Picks self ticks w calls final :=
  .of_drop _ (inOrder_picks (ordered_eq_some returned).2)

theorem ifElse_picks (returned : ifElse ticks w = some ((status, calls), final)) :
    Picks self ticks w calls final := by
  unfold ifElse at returned
  split at returned
  · rcases Program.bind_eq_some returned with ⟨⟨s, log⟩, middle, ticked, after⟩
    by_cases holds : s = .success
    · simp only [if_pos holds] at after
      rcases Program.bind_eq_some after with ⟨⟨t, chosen⟩, _, taken, ended⟩
      cases ended
      exact .pick ticked (.pick taken (.done _ _))
    · simp only [if_neg holds] at after
      rcases Program.bind_eq_some after with ⟨⟨t, chosen⟩, _, taken, ended⟩
      cases ended
      exact .pick ticked (.skip (.pick taken (.done _ _)))
  · cases returned

theorem updateAll_picks {results : List (Status × Log ι)}
    (returned : updateAll ticks w = some (results, final)) :
    Picks self ticks w (results.map Prod.snd) final := by
  induction ticks generalizing w results with
  | nil =>
      cases returned
      exact .done _ _
  | cons tick ticks inductionHypothesis =>
      rcases Program.bind_eq_some returned with ⟨⟨s, log⟩, middle, ticked, after⟩
      rcases Program.bind_eq_some after with ⟨others, _, rest, ended⟩
      cases ended
      exact .pick ticked (inductionHypothesis rest)

theorem priority_picks (returned : priority ticks w = some ((status, calls), final)) :
    Picks self ticks w calls final := by
  unfold priority at returned
  split at returned
  · cases returned
  · rcases Program.bind_eq_some returned with ⟨⟨s, log⟩, middle, ticked, after⟩
    by_cases holds : s = .success
    · simp only [if_pos holds] at after
      cases after
      exact .pick ticked (.done _ _)
    · simp only [if_neg holds] at after
      rcases Program.bind_eq_some after with ⟨results, _, rest, ended⟩
      cases ended
      exact .pick ticked (updateAll_picks rest)

theorem parallel_picks {failed succeed : Int}
    (returned : parallel failed succeed ticks w = some ((status, calls), final)) :
    Picks self ticks w calls final := by
  unfold parallel at returned
  split at returned
  · cases returned
  · rcases Program.bind_eq_some returned with ⟨results, _, rest, ended⟩
    cases ended
    exact updateAll_picks rest

/-- Every composite walks over its children. -/
theorem CompositeKind.execute_picks {kind : CompositeKind}
    (returned : kind.execute self ticks w = some ((status, calls), final)) :
    Picks self ticks w calls final := by
  cases kind with
  | selector withStateful => exact ordered_picks returned
  | sequence withStateful => exact ordered_picks returned
  | ifElse => exact ifElse_picks returned
  | priority => exact priority_picks returned
  | parallelCounts failc succc => exact parallel_picks returned
  | parallel failp succp => exact parallel_picks returned

theorem returning_picks {s : Status} (returned : returning s tick w = some ((status, calls), final)) :
    Picks self [tick] w calls final := by
  rcases Program.bind_eq_some returned with ⟨⟨_, log⟩, _, ticked, ended⟩
  cases ended
  exact .pick ticked (.done _ _)

theorem inverter_picks (returned : inverter tick w = some ((status, calls), final)) :
    Picks self [tick] w calls final := by
  rcases Program.bind_eq_some returned with ⟨⟨_, log⟩, _, ticked, ended⟩
  cases ended
  exact .pick ticked (.done _ _)

theorem repeater_picks {limit : Int}
    (returned : repeater limit self tick w = some ((status, calls), final)) :
    Picks self [tick] w calls final := by
  rcases Program.bind_eq_some returned with ⟨entry, _, found, after⟩
  cases (Context.get_eq_some found).2
  rcases Program.bind_eq_some after with ⟨⟨_, log⟩, middle, ticked, after⟩
  simp only at after
  generalize (if 0 < limit then int32 entry + 1 else int32 entry) = count at after
  split at after
  · cases after
    exact .pick ticked (.done _ _)
  · rcases Program.bind_eq_some after with ⟨_, _, stored, ended⟩
    cases ended
    cases Context.set_eq_some stored
    exact .pick ticked (.own (.done _ _))

theorem retryUntilSuccessful_picks {num : Nat}
    (returned : retryUntilSuccessful tick num w = some ((status, calls), final)) :
    Picks self (List.replicate num tick) w calls final := by
  induction num generalizing w status calls with
  | zero => cases returned
  | succ num inductionHypothesis =>
      rcases Program.bind_eq_some returned with ⟨⟨s, log⟩, middle, ticked, after⟩
      rw [List.replicate_succ]
      simp only at after
      split at after
      · cases after
        exact .pick ticked (.done _ _)
      · rcases Program.bind_eq_some after with ⟨⟨t, logs⟩, _, rest, ended⟩
        cases ended
        exact .pick ticked (inductionHypothesis rest)

theorem duration_picks {now : σ -> Int × σ} {d : Int}
    (returned : duration now d self tick w = some ((status, calls), final)) :
    Picks self [tick] w calls final := by
  rcases Program.bind_eq_some returned with ⟨expiretime, _, found, after⟩
  cases (Context.get_eq_some found).2
  rcases Program.bind_eq_some after with ⟨time, clocked, clock, after⟩
  cases clock
  rcases Program.bind_eq_some after with ⟨⟨s, log⟩, middle, ticked, after⟩
  refine @Picks.external _ _ _ _ _ _ _ _ (now w.outside).2 ?_
  simp only at after
  split at after
  · cases after
    exact .pick ticked (.done _ _)
  · split at after
    · rcases Program.bind_eq_some after with ⟨_, _, stored, ended⟩
      cases ended
      cases Context.set_eq_some stored
      exact .pick ticked (.own (.done _ _))
    · split at after <;> cases after
      · exact .pick ticked (.done _ _)
      · exact .pick ticked (.done _ _)

theorem untilStatus_picks {stop : Status} {fuel : Nat}
    (returned : untilStatus stop tick fuel w = some ((status, calls), final)) :
    Picks self (List.replicate fuel tick) w calls final := by
  induction fuel generalizing w status calls with
  | zero => cases returned
  | succ fuel inductionHypothesis =>
      rcases Program.bind_eq_some returned with ⟨⟨s, log⟩, middle, ticked, after⟩
      rw [List.replicate_succ]
      simp only at after
      split at after
      · cases after
        exact .pick ticked (.done _ _)
      · rcases Program.bind_eq_some after with ⟨⟨t, logs⟩, _, rest, ended⟩
        cases ended
        exact .pick ticked (inductionHypothesis rest)

/-- How often a decorator updates its child at most. -/
def DecoratorKind.rounds (fuel : Nat) : DecoratorKind -> Nat
  | .retryUntilSuccessful attemps => attemps
  | .untilSuccess | .untilFailure => fuel
  | _ => 1

/-- Every decorator walks over rounds of its child. -/
theorem DecoratorKind.execute_picks {setting : Setting ι σ} {fuel : Nat} {kind : DecoratorKind}
    (returned : kind.execute setting fuel self tick w = some ((status, calls), final)) :
    Picks self (List.replicate (kind.rounds fuel) tick) w calls final := by
  cases kind with
  | runner => exact returning_picks returned
  | failer => exact returning_picks returned
  | succeeder => exact returning_picks returned
  | inverter => exact inverter_picks returned
  | repeater limit => exact repeater_picks returned
  | retryUntilSuccessful attemps => exact retryUntilSuccessful_picks returned
  | duration d => exact duration_picks returned
  | untilSuccess => exact untilStatus_picks returned
  | untilFailure => exact untilStatus_picks returned

/-- What the updates of the list and the changes in between preserve holds at the
end of the walk. -/
theorem Picks.invariant {Inv : World ι σ -> Prop} {Good : Log ι -> Prop}
    (picks : Picks self ticks w calls final)
    (owned : forall w value, Inv w -> Inv { w with cells := Function.update w.cells self value })
    (changed : forall w outside, Inv w -> Inv { w with outside := outside })
    (kept : forall tick, tick ∈ ticks -> forall {w final : World ι σ} {status : Status} {log : Log ι},
      Inv w -> tick w = some ((status, log), final) -> Inv final ∧ Good log)
    (initial : Inv w) : Inv final ∧ forall call, call ∈ calls -> Good call := by
  induction picks with
  | done ticks w => exact ⟨initial, nofun⟩
  | skip rest inductionHypothesis =>
      exact inductionHypothesis (fun tick listed => kept tick (List.mem_cons_of_mem _ listed)) initial
  | pick ticked rest inductionHypothesis =>
      have first := kept _ List.mem_cons_self initial ticked
      have later := inductionHypothesis (fun tick listed => kept tick (List.mem_cons_of_mem _ listed)) first.1
      exact ⟨later.1, List.forall_mem_cons.mpr ⟨first.2, later.2⟩⟩
  | own rest inductionHypothesis => exact inductionHypothesis kept (owned _ _ initial)
  | external rest inductionHypothesis => exact inductionHypothesis kept (changed _ _ initial)

/-- An update on the walk was made by one of the list. -/
theorem Picks.called (picks : Picks self ticks w calls final) {call : Log ι} (member : call ∈ calls) :
    Exists fun tick => tick ∈ ticks ∧ Exists fun before => Exists fun status => Exists fun after =>
      tick before = some ((status, call), after) := by
  induction picks with
  | done ticks w => cases member
  | skip rest inductionHypothesis =>
      rcases inductionHypothesis member with ⟨tick, listed, made⟩
      exact ⟨tick, List.mem_cons_of_mem _ listed, made⟩
  | pick ticked rest inductionHypothesis =>
      rcases List.mem_cons.mp member with rfl | later
      · exact ⟨_, List.mem_cons_self, _, _, _, ticked⟩
      · rcases inductionHypothesis later with ⟨tick, listed, made⟩
        exact ⟨tick, List.mem_cons_of_mem _ listed, made⟩
  | own rest inductionHypothesis => exact inductionHypothesis member
  | external rest inductionHypothesis => exact inductionHypothesis member

end Walks

/-! ## Updates -/

namespace Node

variable [DecidableEq ι] {setting : Setting ι σ} {fuel : Nat} {node : Node ι} {w final : World ι σ}
  {status : Status} {log : Log ι}

theorem updates_eq (setting : Setting ι σ) (fuel : Nat) (children : List (Node ι)) :
    updates setting fuel children = children.map (update setting fuel) := by
  induction children with
  | nil => rfl
  | cons child children inductionHypothesis => rw [updates, inductionHypothesis, List.map_cons]

/-- The nodes whose updates an inner node walks over. -/
def turns (fuel : Nat) : Node ι -> List (Node ι)
  | .leaf _ => []
  | .composite _ _ children => children
  | .decorator _ kind child => List.replicate (kind.rounds fuel) child

/-- The virtual function `execute` of the inner nodes. -/
def execute (setting : Setting ι σ) (fuel : Nat) : Node ι -> Action ι σ (Status × List (Log ι))
  | .leaf _ => failure
  | .composite self kind children => kind.execute self (updates setting fuel children)
  | .decorator self kind child => kind.execute setting fuel self (child.update setting fuel)

/-- An update that returned: a leaf was executed, or an inner node walked over
its turns, and then a node that is not running was reset. -/
inductive Updated (setting : Setting ι σ) (fuel : Nat) (w : World ι σ) (status : Status) :
    Node ι -> Log ι -> World ι σ -> Prop
  | leaf {self : ι} {middle final : World ι σ}
      (executed : setting.execute self w = some (status, middle))
      (reset : resetUnlessRunning setting (.leaf self) status middle = some ((), final)) :
      Updated setting fuel w status (.leaf self) (.leaf self status) final
  | inner {node : Node ι} {calls : List (Log ι)} {middle final : World ι σ}
      (executed : node.execute setting fuel w = some ((status, calls), middle))
      (picks : Picks node.self ((node.turns fuel).map (update setting fuel)) w calls middle)
      (reset : resetUnlessRunning setting node status middle = some ((), final)) :
      Updated setting fuel w status node
        (.inner node.self ((w.cells node.self).getD 0) status calls) final

omit [DecidableEq ι] in
theorem turns_subset (fuel : Nat) (node : Node ι) : node.turns fuel ⊆ node.children := by
  intro turn member
  cases node with
  | leaf self => exact member
  | composite self kind children => exact member
  | decorator self kind child =>
      rw [List.eq_of_mem_replicate member]
      exact List.mem_singleton_self child

theorem execute_picks {calls : List (Log ι)}
    (returned : node.execute setting fuel w = some ((status, calls), final)) :
    Picks node.self ((node.turns fuel).map (update setting fuel)) w calls final := by
  cases node with
  | leaf self => cases returned
  | composite self kind children =>
      rw [execute, updates_eq] at returned
      exact CompositeKind.execute_picks returned
  | decorator self kind child =>
      rw [turns, List.map_replicate]
      exact DecoratorKind.execute_picks returned

/-- The update of an inner node. -/
theorem update_inner (inner : forall self, node ≠ .leaf self) :
    node.update setting fuel = (do
      let entry ← Context.get node.self
      let (status, calls) ← node.execute setting fuel
      resetUnlessRunning setting node status
      return (status, .inner node.self entry status calls)) := by
  cases node with
  | leaf self => exact absurd rfl (inner self)
  | composite self kind children => rfl
  | decorator self kind child => rfl

theorem updated_inner (inner : forall self, node ≠ .leaf self)
    (updated : node.update setting fuel w = some ((status, log), final)) :
    Updated setting fuel w status node log final := by
  rw [update_inner inner] at updated
  rcases Program.bind_eq_some updated with ⟨entry, _, found, after⟩
  rcases Context.get_eq_some found with ⟨rfl, rfl⟩
  rcases Program.bind_eq_some after with ⟨⟨s, calls⟩, middle, executed, after⟩
  rcases Program.bind_eq_some after with ⟨_, _, reset, ended⟩
  cases ended
  exact .inner executed (execute_picks executed) reset

theorem update_updated (updated : node.update setting fuel w = some ((status, log), final)) :
    Updated setting fuel w status node log final := by
  cases node with
  | leaf self =>
      rcases Program.bind_eq_some updated with ⟨s, middle, executed, after⟩
      rcases Program.bind_eq_some after with ⟨_, _, reset, ended⟩
      cases ended
      exact .leaf executed reset
  | composite self kind children => exact updated_inner (fun _ same => nomatch same) updated
  | decorator self kind child => exact updated_inner (fun _ same => nomatch same) updated

/-- The log of an update names the node and the status. -/
theorem update_log (updated : node.update setting fuel w = some ((status, log), final)) :
    log.node = node.self ∧ log.status = status := by
  cases update_updated updated with
  | leaf executed reset => exact ⟨rfl, rfl⟩
  | inner executed picks reset => exact ⟨rfl, rfl⟩

/-- What an update called was an update of a child. -/
theorem called_updated (updated : node.update setting fuel w = some ((status, log), final)) {call : Log ι}
    (called : call ∈ log.calls) :
    Exists fun child => child ∈ node.children ∧ Exists fun before => Exists fun s => Exists fun after =>
      child.update setting fuel before = some ((s, call), after) := by
  cases update_updated updated with
  | leaf executed reset => cases called
  | inner executed picks reset =>
      rcases picks.called called with ⟨tick, listed, before, s, after, made⟩
      rcases List.mem_map.mp listed with ⟨child, turn, rfl⟩
      exact ⟨child, turns_subset fuel node turn, before, s, after, made⟩

/-- Every update in the log of a tree is an update of a node of the tree. -/
theorem exits_updated (updated : node.update setting fuel w = some ((status, log), final))
    {exit : Log ι} (member : exit ∈ log.exits) :
    Exists fun sub => sub ∈ node.nodes ∧ Exists fun before => Exists fun after =>
      sub.update setting fuel before = some ((exit.status, exit), after) := by
  induction node using Node.induction generalizing w status log final with
  | step node inductionHypothesis =>
      have whole := (update_log updated).2
      rcases Log.mem_exits.mp member with ⟨call, called, inside⟩ | rfl
      · rcases called_updated updated called with ⟨child, listed, before, s, after, made⟩
        rcases inductionHypothesis child listed made inside with ⟨sub, found, rest⟩
        exact ⟨sub, child_nodes listed found, rest⟩
      · rw [whole]
        exact ⟨node, self_mem_nodes node, w, final, updated⟩

/-- Every result of a run is the result of an update of the root. -/
theorem run_updated {changes : List (σ -> σ)} {results : List (Status × Log ι)}
    (ran : node.run setting fuel changes w = some (results, final)) {result : Status × Log ι}
    (member : result ∈ results) :
    Exists fun before => Exists fun after => node.update setting fuel before = some (result, after) := by
  induction changes generalizing w results with
  | nil =>
      cases ran
      cases member
  | cons change changes inductionHypothesis =>
      rcases Program.bind_eq_some ran with ⟨_, _, changed, after⟩
      rcases Program.bind_eq_some after with ⟨first, middle, updated, after⟩
      rcases Program.bind_eq_some after with ⟨others, _, rest, ended⟩
      cases ended
      rcases List.mem_cons.mp member with rfl | later
      · exact ⟨_, middle, updated⟩
      · exact inductionHypothesis rest later

end Node

end Brain
end ServerTech
