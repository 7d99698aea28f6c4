import Mathlib.Data.Set.Insert
import ServerTech.Brain.Cleanup
import ServerTech.Brain.Ordered
import ServerTech.Foundation.Transition

namespace ServerTech
namespace Brain

open Program
open Transition

variable {ι σ : Type} [DecidableEq ι]

/-!
# What stateful composites remember

A stateful selector keeps the index of the child it stopped at until it fails,
and a stateful sequence until it succeeds.  But `reset` is called for a node that
ends and for everything below it with the same status, and the guard of a
stateful composite compares this status with `Failure` or `Success` whoever has
ended.  So an ancestor that fails clears a stateful selector that has succeeded.

The results below follow the entry of one stateful composite through the list of
all updates of a run, in the order in which they ended.
-/

/-- The leaves change no entry but their own. -/
structure Setting.Own (setting : Setting ι σ) : Prop where
  execute : forall self, Framed {self} (setting.execute self)
  reset : forall self status, Framed {self} (setting.reset self status)

theorem Setting.Local.own {setting : Setting ι σ} (tidy : setting.Local) : setting.Own where
  execute := fun self => (tidy.execute self).frame
  reset := by
    intro self status s final u returned
    have confined : Confined {self} (Context.set self (-1) : Action ι σ Unit) :=
      .write (Set.mem_singleton self) _
    rw [tidy.reset] at returned
    exact confined.frame returned

/-! ## What a reset erases -/

omit [DecidableEq ι] in
theorem erased_twice {first second : Prop} [Decidable first] [Decidable second] (entry : Option Int) :
    (if second then none else if first then none else entry) =
      if first ∨ second then none else entry := by
  by_cases later : second
  · rw [if_pos later, if_pos (Or.inr later)]
  · simp only [later, or_false, if_false]

namespace Node

mutual

/-- The inner nodes whose entries `reset` erases. -/
def reached (status : Status) : Node ι -> List ι
  | .leaf _ => []
  | .composite self kind children =>
      if kind.resets status then self :: reachedAll status children else []
  | .decorator self _ child => self :: reached status child

def reachedAll (status : Status) : List (Node ι) -> List ι
  | [] => []
  | child :: children => reached status child ++ reachedAll status children

end

variable {setting : Setting ι σ} {status : Status} {node : Node ι} {name : ι} {w final : World ι σ}

omit [DecidableEq ι] in
theorem reachedAll_eq (status : Status) (children : List (Node ι)) :
    reachedAll status children = children.flatMap (reached status) := by
  induction children with
  | nil => rfl
  | cons child children inductionHypothesis =>
      rw [reachedAll, inductionHypothesis, List.flatMap_cons]

omit [DecidableEq ι] in
theorem reached_subset (status : Status) (node : Node ι) : node.reached status ⊆ node.ids := by
  induction node using Node.induction with
  | step node inductionHypothesis =>
      have below : node.children.flatMap (reached status) ⊆ node.children.flatMap ids := by
        intro name member
        rcases List.mem_flatMap.mp member with ⟨child, listed, inside⟩
        exact List.mem_flatMap.mpr ⟨child, listed, inductionHypothesis child listed inside⟩
      rw [ids_eq]
      cases node with
      | leaf self => exact List.nil_subset _
      | composite self kind children =>
          rw [reached, reachedAll_eq]
          split
          · exact List.cons_subset_cons _ below
          · exact List.nil_subset _
      | decorator self kind child =>
          rw [Node.children, List.flatMap_singleton, List.flatMap_singleton] at below
          rw [reached, Node.children, List.flatMap_singleton]
          exact List.cons_subset_cons _ below

theorem set_cells (self : ι) {u : Unit} (returned : Context.set self (-1) w = some (u, final)) :
    final.cells name = if name = self then none else w.cells name := by
  rw [Context.set_eq_some returned, if_pos rfl]
  by_cases same : name = self
  · subst same
    rw [if_pos rfl]
    exact Function.update_self _ _ _
  · rw [if_neg same]
    exact Function.update_of_ne same _ _

theorem resetAll_erases {children : List (Node ι)} {u : Unit}
    (erases : forall child, child ∈ children -> forall {w final : World ι σ} {u : Unit},
      child.reset setting status w = some (u, final) ->
        final.cells name = if name ∈ child.reached status then none else w.cells name)
    (returned : resetAll setting status children w = some (u, final)) :
    final.cells name = if name ∈ reachedAll status children then none else w.cells name := by
  induction children generalizing w with
  | nil =>
      cases returned
      rfl
  | cons child children inductionHypothesis =>
      rcases bind_eq_some returned with ⟨_, middle, first, rest⟩
      rw [inductionHypothesis (fun other listed => erases other (List.mem_cons_of_mem _ listed)) rest,
        erases child List.mem_cons_self first]
      simp only [reachedAll, List.mem_append]
      exact erased_twice _

/-- `reset` erases the entries of the inner nodes it reaches, and changes the
entry of no other inner node. -/
theorem reset_erases (own : setting.Own) (inner : .leaf name ∉ node.nodes) {u : Unit}
    (returned : node.reset setting status w = some (u, final)) :
    final.cells name = if name ∈ node.reached status then none else w.cells name := by
  induction node using Node.induction generalizing w final u with
  | step node inductionHypothesis =>
      have below : forall child, child ∈ node.children -> forall {w final : World ι σ} {u : Unit},
          child.reset setting status w = some (u, final) ->
            final.cells name = if name ∈ child.reached status then none else w.cells name :=
        fun child member _ _ _ returned =>
          inductionHypothesis child member (fun leaf => inner (child_nodes member leaf)) returned
      cases node with
      | leaf self =>
          have other : name ∉ ({self} : Set ι) := by
            rintro rfl
            exact inner (self_mem_nodes _)
          rw [own.reset self status returned name other]
          rfl
      | composite self kind children =>
          rw [reset] at returned
          rw [reached]
          split at returned
          · rename_i resets
            rcases bind_eq_some returned with ⟨_, middle, first, rest⟩
            rw [resetAll_erases below rest, set_cells self first, if_pos resets]
            simp only [List.mem_cons]
            exact erased_twice _
          · rename_i kept
            cases returned
            rw [if_neg kept]
            rfl
      | decorator self kind child =>
          rcases bind_eq_some returned with ⟨_, middle, first, rest⟩
          rw [below child (List.mem_singleton_self child) rest, set_cells self first, reached]
          simp only [List.mem_cons]
          exact erased_twice _

theorem ends_erases (own : setting.Own) (inner : .leaf name ∉ node.nodes) {u : Unit}
    (returned : resetUnlessRunning setting node status w = some (u, final)) :
    final.cells name =
      if status ≠ .running ∧ name ∈ node.reached status then none else w.cells name := by
  unfold resetUnlessRunning at returned
  split at returned
  · rename_i ended
    rw [reset_erases own inner returned]
    simp only [ended, ne_eq, not_false_eq_true, true_and]
  · rename_i runs
    cases returned
    exact (if_neg (fun reaches => runs reaches.1)).symm

end Node

/-! ## The entry of a stateful composite -/

/-- The node that ended was reset, and this reset reached the given node. -/
def Clears (root : Node ι) (name : ι) (log : Log ι) : Prop :=
  log.status ≠ .running ∧ Exists fun node => node ∈ root.nodes ∧ node.self = log.node ∧
    name ∈ node.reached log.status

instance (root : Node ι) (name : ι) (log : Log ι) : Decidable (Clears root name log) :=
  inferInstanceAs (Decidable (log.status ≠ .running ∧ Exists fun node => node ∈ root.nodes ∧
    node.self = log.node ∧ name ∈ node.reached log.status))

/-- The entry of a composite before and after an update ends.  The composite
itself starts at the child it remembers; when it stops at a child then it
remembers this child, and otherwise nothing. -/
inductive Recall (root : Node ι) (name : ι) (through : Status) (children : List ι) :
    Option Int -> Log ι -> Option Int -> Prop
  | other {entry : Option Int} {log : Log ι} (other : log.node ≠ name) :
      Recall root name through children entry log (if Clears root name log then none else entry)
  | ended {entry : Option Int} {log : Log ι} (own : log.node = name) (status : log.status = through)
      (starts : log.calls.head?.map Log.node = children[Context.start (entry.getD 0) children.length]?) :
      Recall root name through children entry log none
  | stopped {entry : Option Int} {log : Log ι} {index : Nat} {child : ι} (own : log.node = name)
      (status : log.status ≠ through)
      (starts : log.calls.head?.map Log.node = children[Context.start (entry.getD 0) children.length]?)
      (last : log.calls.getLast?.map Log.node = some child) (stored : children[index]? = some child) :
      Recall root name through children entry log (some index)

section Following

variable {setting : Setting ι σ} {fuel : Nat} {root node : Node ι} {name : ι} {through status : Status}
  {kind : CompositeKind} {children : List (Node ι)} {names : List ι} {w final : World ι σ}
  {log : Log ι} {logs : List (Log ι)}

theorem run_other {entry after : Option Int} (run : Run (Recall root name through names) entry logs after)
    (others : forall log, log ∈ logs -> log.node ≠ name) :
    after = if Exists fun log => log ∈ logs ∧ Clears root name log then none else entry := by
  induction run with
  | refl => exact (if_neg (fun ⟨_, member, _⟩ => nomatch member)).symm
  | snoc earlier last inductionHypothesis =>
      rename_i logs log
      have middle := inductionHypothesis fun log member => others log (List.mem_append_left _ member)
      have other := others log (List.mem_append_right _ List.mem_cons_self)
      cases last with
      | other _ =>
          rw [middle, erased_twice]
          congr 1
          apply propext
          simp only [List.mem_append, List.mem_singleton, or_and_right, exists_or, exists_eq_left]
      | ended own => exact absurd own other
      | stopped own => exact absurd own other

/-- Updates of other nodes that do not clear the entry leave it alone. -/
theorem run_quiet (entry : Option Int)
    (quiet : forall log, log ∈ logs -> log.node ≠ name ∧ ¬ Clears root name log) :
    Run (Recall root name through names) entry logs entry := by
  induction logs with
  | nil => exact .refl _
  | cons log logs inductionHypothesis =>
      rcases quiet log List.mem_cons_self with ⟨other, kept⟩
      have first : Recall root name through names entry log entry := by
        have step := @Recall.other ι _ root name through names entry log other
        rwa [if_neg kept] at step
      exact .cons first (inductionHypothesis fun log member => quiet log (List.mem_cons_of_mem _ member))

/-- The updates below a node do not concern the entry of the node. -/
theorem below_quiet (different : root.ids.Nodup) (member : node ∈ root.nodes)
    (updated : node.update setting fuel w = some ((status, log), final)) {call exit : Log ι}
    (called : call ∈ log.calls) (made : exit ∈ call.exits) :
    exit.node ≠ node.self ∧ ¬ Clears root node.self exit := by
  rcases Node.called_updated updated called with ⟨child, listed, _, _, _, childUpdated⟩
  rcases Node.exits_updated childUpdated made with ⟨sub, found, before, after, subUpdated⟩
  have above : node.self ∉ sub.ids := by
    have own := Node.ids_nodup different member
    rw [Node.ids_eq] at own
    intro inside
    refine (List.nodup_cons.mp own).1 (List.mem_flatMap.mpr ⟨child, listed, ?_⟩)
    exact ((Node.nodes_sublist found).map Node.self).subset inside
  have named := (Node.update_log subUpdated).1
  constructor
  · intro same
    rw [← same, named] at above
    exact above (Node.self_mem_ids sub)
  · rintro ⟨_, other, inTree, same, reached⟩
    have subInTree := (Node.nodes_sublist member).subset (Node.child_nodes listed found)
    cases Node.eq_of_self different inTree subInTree (same.trans named)
    exact above (Node.reached_subset _ _ reached)

omit [DecidableEq ι] in
/-- A stateful composite lets one status through. -/
theorem resets_stateful (loops : kind.through = some through)
    (stateful : (Node.composite name kind children).stateful = true) :
    kind.resets status = decide (status = through) := by
  cases kind with
  | selector withStateful =>
      cases stateful
      cases loops
      rfl
  | sequence withStateful =>
      cases stateful
      cases loops
      rfl
  | _ => cases loops

omit [DecidableEq ι] in
theorem through_ne_running (loops : kind.through = some through) : through ≠ .running := by
  cases kind with
  | selector withStateful =>
      cases loops
      decide
  | sequence withStateful =>
      cases loops
      decide
  | _ => cases loops

omit [DecidableEq ι] in
theorem starts_of_order {start : Nat} {calls : List (Log ι)}
    (order : calls.map Log.node <+: (children.drop start).map Node.self)
    (all : calls = [] -> children.drop start = []) :
    calls.head?.map Log.node = (children.map Node.self)[start]? := by
  rw [← List.head?_drop, ← List.map_drop, ← List.head?_map]
  rcases order with ⟨rest, same⟩
  cases calls with
  | nil => rw [all rfl]; rfl
  | cons call calls => rw [← same]; rfl

omit [DecidableEq ι] in
theorem last_of_order {start : Nat} {earlier : List (Log ι)} {last : Log ι}
    (order : (earlier ++ [last]).map Log.node <+: (children.drop start).map Node.self) :
    (children.map Node.self)[start + earlier.length]? = some last.node := by
  rcases order with ⟨rest, same⟩
  rw [← List.getElem?_drop, ← List.map_drop, ← same, List.map_append, List.map_singleton,
    List.append_assoc, List.getElem?_append_right (List.length_map _).le, List.length_map, Nat.sub_self]
  rfl

omit [DecidableEq ι] in
theorem leaf_absent (different : root.ids.Nodup) (member : .composite name kind children ∈ root.nodes)
    (inTree : node ∈ root.nodes) : .leaf name ∉ node.nodes := by
  intro leaf
  cases Node.eq_of_self different member ((Node.nodes_sublist inTree).subset leaf) rfl

/-- The update of the composite itself. -/
theorem own_recall (own : setting.Own) (different : root.ids.Nodup)
    (member : .composite name kind children ∈ root.nodes) (loops : kind.through = some through)
    (stateful : (Node.composite name kind children).stateful = true)
    (updated : (Node.composite name kind children).update setting fuel w = some ((status, log), final)) :
    Recall root name through (children.map Node.self) (w.cells name) log (final.cells name) := by
  rcases ordered_updated loops updated with ⟨calls, middle, rfl, nonempty, looped, reset⟩
  rw [Node.ends_erases own (leaf_absent different member member) reset, Node.reached,
    resets_stateful loops stateful]
  rcases inOrder_returned looped with whole | early
  · have same := whole.goesOn
    subst same
    rw [decide_eq_true rfl, if_pos rfl, if_pos ⟨through_ne_running loops, List.mem_cons_self⟩]
    refine .ended rfl rfl ?_
    rw [List.length_map]
    refine starts_of_order whole.order ?_
    rintro rfl
    exact List.map_eq_nil_iff.mp whole.ticked.symm
  · rw [decide_eq_false early.stops, if_neg Bool.false_ne_true, if_neg (fun reaches => nomatch reaches.2)]
    rcases early.last with ⟨earlier, last, rfl, _, stored⟩
    rw [stored]
    refine .stopped rfl early.stops ?_ ?_ (last_of_order early.ticked)
    · rw [List.length_map]
      refine starts_of_order early.ticked ?_
      intro empty
      exact absurd empty (List.concat_ne_nil _ _)
    · exact congrArg (Option.map Log.node) List.getLast?_concat

/-- A walk of another node over its turns, when each turn is followed. -/
theorem Picks.followed {turns : List (Node ι)} {calls : List (Log ι)}
    (picks : Picks node.self (turns.map (Node.update setting fuel)) w calls final)
    (other : node.self ≠ name)
    (follows : forall turn, turn ∈ turns -> forall {w final : World ι σ} {status : Status} {log : Log ι},
      turn.update setting fuel w = some ((status, log), final) ->
        Run (Recall root name through names) (w.cells name) log.exits (final.cells name)) :
    Run (Recall root name through names) (w.cells name) (calls.flatMap Log.exits) (final.cells name) := by
  generalize same : turns.map (Node.update setting fuel) = ticks at picks
  induction picks generalizing turns with
  | done ticks w => exact .refl _
  | skip rest inductionHypothesis =>
      rcases List.map_eq_cons_iff.mp same with ⟨turn, turns, rfl, _, rest⟩
      exact inductionHypothesis (fun other member => follows other (List.mem_cons_of_mem _ member)) rest
  | pick ticked rest inductionHypothesis =>
      rcases List.map_eq_cons_iff.mp same with ⟨turn, turns, rfl, rfl, rest⟩
      rw [List.flatMap_cons]
      refine (follows turn List.mem_cons_self ticked).append ?_
      exact inductionHypothesis (fun other member => follows other (List.mem_cons_of_mem _ member)) rest
  | own rest inductionHypothesis =>
      rename_i w final calls value
      have unchanged : Function.update w.cells node.self value name = w.cells name :=
        Function.update_of_ne other.symm _ _
      rw [← unchanged]
      exact inductionHypothesis follows same
  | external rest inductionHypothesis => exact inductionHypothesis follows same

omit [DecidableEq ι] in
theorem clears_iff (different : root.ids.Nodup) (inTree : node ∈ root.nodes)
    (named : log.node = node.self) :
    Clears root name log ↔ log.status ≠ .running ∧ name ∈ node.reached log.status := by
  constructor
  · rintro ⟨ended, other, found, same, reaches⟩
    cases Node.eq_of_self different found inTree (same.trans named)
    exact ⟨ended, reaches⟩
  · rintro ⟨ended, reaches⟩
    exact ⟨ended, node, inTree, named.symm, reaches⟩

/-- The end of the update of another node. -/
theorem other_recall (own : setting.Own) (different : root.ids.Nodup)
    (member : .composite name kind children ∈ root.nodes) (inTree : node ∈ root.nodes)
    (other : node.self ≠ name) (named : log.node = node.self)
    (reset : Node.resetUnlessRunning setting node log.status w = some ((), final)) :
    Recall root name through names (w.cells name) log (final.cells name) := by
  have step := @Recall.other ι _ root name through names (w.cells name) log
    fun same => other (named.symm.trans same)
  rw [Node.ends_erases own (leaf_absent different member inTree) reset]
  simpa only [clears_iff different inTree named] using step

/-- The entry of a stateful composite through an update anywhere in the tree. -/
theorem update_recall (own : setting.Own) (different : root.ids.Nodup)
    (member : .composite name kind children ∈ root.nodes) (loops : kind.through = some through)
    (stateful : (Node.composite name kind children).stateful = true) (inTree : node ∈ root.nodes)
    (updated : node.update setting fuel w = some ((status, log), final)) :
    Run (Recall root name through (children.map Node.self)) (w.cells name) log.exits
      (final.cells name) := by
  induction node using Node.induction generalizing w status log final with
  | step node inductionHypothesis =>
      have inTree' : forall child, child ∈ node.children -> child ∈ root.nodes := by
        intro child listed
        exact (Node.nodes_sublist inTree).subset (Node.child_nodes listed (Node.self_mem_nodes child))
      by_cases itself : node.self = name
      · cases Node.eq_of_self different inTree member itself
        rw [Log.exits_eq]
        refine .snoc (run_quiet _ ?_) (own_recall own different member loops stateful updated)
        intro exit made
        rcases List.mem_flatMap.mp made with ⟨call, called, inside⟩
        exact below_quiet different member updated called inside
      · cases Node.update_updated updated with
        | leaf executed reset =>
            rename_i self middle
            have kept : middle.cells name = w.cells name :=
              own.execute self executed name fun same => itself same.symm
            rw [← kept]
            exact .snoc (.refl _) (other_recall own different member inTree itself rfl reset)
        | inner executed picks reset =>
            rw [Log.exits_eq]
            refine .snoc (picks.followed itself ?_) (other_recall own different member inTree itself rfl reset)
            intro turn listed _ _ _ _ ticked
            have below := Node.turns_subset fuel node listed
            exact inductionHypothesis turn below (inTree' turn below) ticked

/-- All updates of a run, in the order in which they ended. -/
def history (results : List (Status × Log ι)) : List (Log ι) :=
  results.flatMap fun result => result.2.exits

theorem run_recall (own : setting.Own) (different : root.ids.Nodup)
    (member : .composite name kind children ∈ root.nodes) (loops : kind.through = some through)
    (stateful : (Node.composite name kind children).stateful = true) {changes : List (σ -> σ)}
    {results : List (Status × Log ι)}
    (ran : root.run setting fuel changes w = some (results, final)) :
    Run (Recall root name through (children.map Node.self)) (w.cells name) (history results)
      (final.cells name) := by
  induction changes generalizing w results with
  | nil =>
      cases ran
      exact .refl _
  | cons change changes inductionHypothesis =>
      rcases bind_eq_some ran with ⟨_, _, changed, after⟩
      cases changed
      rcases bind_eq_some after with ⟨⟨status, log⟩, middle, updated, after⟩
      rcases bind_eq_some after with ⟨others, _, rest, ended⟩
      cases ended
      exact (update_recall own different member loops stateful (Node.self_mem_nodes root) updated).append
        (inductionHypothesis rest)

/-! ## Resuming -/

/-- The next update starts at the child at which the last one stopped. -/
def Resumes (last next : Log ι) : Prop :=
  next.calls.head?.map Log.node = last.calls.getLast?.map Log.node

theorem Recall.starts {entry after : Option Int}
    (step : Recall root name through names entry log after) (own : log.node = name) :
    log.calls.head?.map Log.node = names[Context.start (entry.getD 0) names.length]? := by
  cases step with
  | other other => exact absurd own other
  | ended _ _ starts => exact starts
  | stopped _ _ starts _ _ => exact starts

/-- Two updates of a stateful composite in a run with no other one in between, of
which the first stopped at a child.  The second one starts at this child if and
only if it is the first child or no ancestor ended in between whose reset reached
the composite. -/
theorem run_resumes (own : setting.Own) (different : root.ids.Nodup)
    (member : .composite name kind children ∈ root.nodes) (loops : kind.through = some through)
    (stateful : (Node.composite name kind children).stateful = true) {changes : List (σ -> σ)}
    {environment : σ} {results : List (Status × Log ι)}
    (ran : root.run setting fuel changes (World.new environment) = some (results, final))
    {before between after : List (Log ι)} {last next : Log ι}
    (split : history results = before ++ last :: (between ++ next :: after))
    (lastOwn : last.node = name) (nextOwn : next.node = name)
    (others : forall log, log ∈ between -> log.node ≠ name) (stopped : last.status ≠ through) :
    Resumes last next ↔
      last.calls.getLast?.map Log.node = (children.map Node.self).head? ∨
        forall log, log ∈ between -> ¬ Clears root name log := by
  have run := run_recall own different member loops stateful ran
  rw [split] at run
  rcases run.through with ⟨_, first, _, lastStep, rest⟩
  rcases rest.through with ⟨second, _, middle, nextStep, _⟩
  have kept := run_other middle others
  have starts := nextStep.starts nextOwn
  cases lastStep with
  | other other => exact absurd lastOwn other
  | ended _ status => exact absurd status stopped
  | stopped _ _ _ ends stored =>
      unfold Resumes
      rw [starts, kept, ends]
      by_cases cleared : Exists fun log => log ∈ between ∧ Clears root name log
      · rw [if_pos cleared]
        change (children.map Node.self)[0]? = _ ↔ _
        rw [← List.head?_eq_getElem?]
        constructor
        · exact fun same => .inl same.symm
        · rintro (same | none_)
          · exact same.symm
          · rcases cleared with ⟨log, listed, clears⟩
            exact absurd clears (none_ log listed)
      · rw [if_neg cleared]
        refine iff_of_true stored (.inr fun log listed clears => cleared ⟨log, listed, clears⟩)

end Following

theorem exists_split {α β : Type} {view : α -> β} {logs : List α} {left middle right : List β} {first second : β}
    (views : logs.map view = left ++ first :: (middle ++ second :: right)) :
    Exists fun before => Exists fun last => Exists fun between => Exists fun next =>
      Exists fun after => logs = before ++ last :: (between ++ next :: after) ∧ view last = first ∧
        between.map view = middle ∧ view next = second := by
  rcases List.map_eq_append_iff.mp views with ⟨before, rest, rfl, _, views⟩
  rcases List.map_eq_cons_iff.mp views with ⟨last, rest, rfl, isLast, views⟩
  rcases List.map_eq_append_iff.mp views with ⟨between, rest, rfl, areBetween, views⟩
  rcases List.map_eq_cons_iff.mp views with ⟨next, after, rfl, isNext, _⟩
  exact ⟨before, last, between, next, after, rfl, isLast, areBetween, isNext⟩

/-- The node and the status of an update, with the first and the last child it
updated. -/
def Log.summary (log : Log ι) : ι × Status × Option ι × Option ι :=
  (log.node, log.status, log.calls.head?.map Log.node, log.calls.getLast?.map Log.node)

/-- A stateful selector that succeeded with its second child starts at the first
one again, since the sequence above it failed. -/
theorem memory_cleared :
    Exists fun results => Exists fun final : World Nat Unit => Exists fun before => Exists fun last =>
      Exists fun between => Exists fun next => Exists fun after =>
      (Node.composite 0 (.sequence false) [.composite 1 (.selector true) [.leaf 2, .leaf 3], .leaf 4]).run
        (.scripted fun name _ => if name = 3 then .success else .failure) 0 [id, id] (World.new ()) =
          some (results, final) ∧
      history results = before ++ last :: (between ++ next :: after) ∧ last.node = 1 ∧ next.node = 1 ∧
      (forall log, log ∈ between -> log.node ≠ 1) ∧ last.status = .success ∧ ¬ Resumes last next := by
  have facts : ((Node.composite 0 (.sequence false)
      [.composite 1 (.selector true) [.leaf 2, .leaf 3], .leaf 4]).run
      (.scripted fun name (_ : Unit) => if name = 3 then .success else .failure) 0 [id, id]
      (World.new ())).map (fun ran => (history ran.1).map Log.summary) =
      some ([(2, .failure, none, none), (3, .success, none, none)] ++ (1, .success, some 2, some 3) ::
        ([(4, .failure, none, none), (0, .failure, some 1, some 4), (2, .failure, none, none),
            (3, .success, none, none)] ++
          (1, .success, some 2, some 3) :: [(4, .failure, none, none), (0, .failure, some 1, some 4)])) := by
    decide +kernel
  rcases Option.map_eq_some_iff.mp facts with ⟨⟨results, final⟩, ran, views⟩
  rcases exists_split views with ⟨before, last, between, next, after, split, isLast, areBetween, isNext⟩
  simp only [Log.summary, Prod.mk.injEq] at isLast isNext
  rcases isLast with ⟨lastOwn, success, _, lastChild⟩
  rcases isNext with ⟨nextOwn, _, nextChild, _⟩
  have others : forall view, view ∈ between.map Log.summary -> view.1 ≠ 1 := by
    rw [areBetween]
    decide
  refine ⟨results, final, before, last, between, next, after, ran, split, lastOwn, nextOwn, ?_, success, ?_⟩
  · exact fun log listed => others _ (List.mem_map_of_mem listed)
  · rw [Resumes, lastChild, nextChild]
    decide

/-- The same selector below a `Succeeder`, which ends in between. -/
theorem run_resumes_succeeder :
    Exists fun results => Exists fun final : World Nat Unit => Exists fun before => Exists fun last =>
      Exists fun between => Exists fun next => Exists fun after =>
      (Node.decorator 0 .succeeder (.composite 1 (.selector true) [.leaf 2, .leaf 3])).run
        (.scripted fun name _ => if name = 3 then .success else .failure) 0 [id, id] (World.new ()) =
          some (results, final) ∧
      history results = before ++ last :: (between ++ next :: after) ∧
      between.map Log.node = [0, 3] ∧ Resumes last next := by
  have facts : ((Node.decorator 0 .succeeder (.composite 1 (.selector true) [.leaf 2, .leaf 3])).run
      (.scripted fun name (_ : Unit) => if name = 3 then .success else .failure) 0 [id, id]
      (World.new ())).map (fun ran => (history ran.1).map Log.summary) =
      some ([(2, .failure, none, none), (3, .success, none, none)] ++ (1, .success, some 2, some 3) ::
        ([(0, .success, some 1, some 1), (3, .success, none, none)] ++
          (1, .success, some 3, some 3) :: [(0, .success, some 1, some 1)])) := by
    decide +kernel
  rcases Option.map_eq_some_iff.mp facts with ⟨⟨results, final⟩, ran, views⟩
  rcases exists_split views with ⟨before, last, between, next, after, split, isLast, areBetween, isNext⟩
  simp only [Log.summary, Prod.mk.injEq] at isLast isNext
  rcases isLast with ⟨lastOwn, success, _, _⟩
  have others : forall view, view ∈ between.map Log.summary -> view.1 ≠ 1 ∧
      ¬ (view.2.1 ≠ .running ∧ Exists fun node =>
        node ∈ (Node.decorator 0 .succeeder (.composite 1 (.selector true) [.leaf 2, .leaf 3])).nodes ∧
          node.self = view.1 ∧ 1 ∈ node.reached view.2.1) := by
    rw [areBetween]
    decide
  have resumes := run_resumes (Node.scripted_local _).own (by decide)
    (List.mem_cons_of_mem _ (Node.self_mem_nodes _)) rfl rfl ran split lastOwn isNext.1
    (fun log listed => (others _ (List.mem_map_of_mem listed)).1) (by rw [success]; decide)
  refine ⟨results, final, before, last, between, next, after, ran, split, ?_, resumes.mpr (.inr ?_)⟩
  · have nodes := congrArg (List.map Prod.fst) areBetween
    rwa [List.map_map] at nodes
  · exact fun log listed => (others _ (List.mem_map_of_mem listed)).2

end Brain
end ServerTech
