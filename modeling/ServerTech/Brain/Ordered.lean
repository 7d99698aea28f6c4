import Mathlib.Data.List.Nodup
import ServerTech.Brain.Trace

namespace ServerTech
namespace Brain

variable {ι σ : Type} [DecidableEq ι]

/-!
# Where selectors and sequences start

`Selector` and `Sequence` are one loop over the children: it goes on while the
children return one status, and otherwise stores the index of the child it stops
at.  The comments of the two classes say that the next tick tries each child in
order again.  The code starts from the stored index, and the entry of a node that
returned `Running` is still there in the next tick.  So an update is the
documented one exactly when the node finds no entry, or the index 0.
-/

/-- The status with which the loop of a selector or a sequence goes on. -/
def CompositeKind.through : CompositeKind -> Option Status
  | .selector _ => some .failure
  | .sequence _ => some .success
  | _ => none

/-! ## Trees of different nodes -/

namespace Node

omit [DecidableEq ι] in
theorem nodes_sublist {root sub : Node ι} (member : sub ∈ root.nodes) : sub.nodes.Sublist root.nodes := by
  induction root using Node.induction with
  | step node inductionHypothesis =>
      have nodes := nodes_eq node
      rw [nodes] at member
      rcases List.mem_cons.mp member with rfl | below
      · exact .refl _
      · rw [nodes]
        rcases List.mem_flatMap.mp below with ⟨child, listed, found⟩
        refine (inductionHypothesis child listed found).trans (List.Sublist.cons _ ?_)
        rw [List.flatMap_def]
        exact List.sublist_flatten_of_mem (List.mem_map_of_mem listed)

omit [DecidableEq ι] in
/-- Different nodes of the tree have different names. -/
theorem eq_of_self {root first second : Node ι} (different : root.ids.Nodup)
    (member : first ∈ root.nodes) (member' : second ∈ root.nodes) (same : first.self = second.self) :
    first = second :=
  List.inj_on_of_nodup_map different member member' same

omit [DecidableEq ι] in
theorem ids_nodup {root sub : Node ι} (different : root.ids.Nodup) (member : sub ∈ root.nodes) :
    sub.ids.Nodup :=
  different.sublist ((nodes_sublist member).map self)

omit [DecidableEq ι] in
theorem children_nodup {root sub : Node ι} (different : root.ids.Nodup) (member : sub ∈ root.nodes) :
    (sub.children.map self).Nodup := by
  have own := ids_nodup different member
  rw [ids_eq] at own
  refine (List.nodup_cons.mp own).2.sublist ?_
  induction sub.children with
  | nil => exact .slnil
  | cons child children inductionHypothesis =>
      rw [List.map_cons, List.flatMap_cons, ids_eq, List.cons_append]
      exact (inductionHypothesis.trans (List.sublist_append_right _ _)).cons_cons _

end Node

/-! ## The loop -/

section Loop

variable {setting : Setting ι σ} {fuel : Nat} {through status : Status} {self : ι} {i : Nat}
  {children : List (Node ι)} {w final : World ι σ} {calls : List (Log ι)}

/-- The loop went through all children. -/
structure Ended (through : Status) (children : List (Node ι)) (status : Status)
    (calls : List (Log ι)) : Prop where
  goesOn : status = through
  ticked : calls.map Log.node = children.map Node.self
  statuses : forall call, call ∈ calls -> call.status = through

omit [DecidableEq ι] in
theorem Ended.order (ended : Ended through children status calls) :
    calls.map Log.node <+: children.map Node.self :=
  ⟨[], (List.append_nil _).trans ended.ticked⟩

/-- The loop stopped at a child and stored its index. -/
structure Stopped (through : Status) (node : ι) (i : Nat) (children : List (Node ι)) (status : Status)
    (calls : List (Log ι)) (final : World ι σ) : Prop where
  stops : status ≠ through
  ticked : calls.map Log.node <+: children.map Node.self
  last : Exists fun earlier => Exists fun last => calls = earlier ++ [last] ∧ last.status = status ∧
    final.cells node = some ((i + earlier.length : Nat) : Int)

theorem inOrder_returned
    (returned : inOrder through self i (children.map (Node.update setting fuel)) w =
      some ((status, calls), final)) :
    Ended through children status calls ∨ Stopped through self i children status calls final := by
  induction children generalizing i w status calls with
  | nil =>
      cases returned
      exact .inl ⟨rfl, rfl, fun _ member => nomatch member⟩
  | cons child children inductionHypothesis =>
      rcases Program.bind_eq_some returned with ⟨⟨s, log⟩, middle, updated, after⟩
      rcases Node.update_log updated with ⟨node, same⟩
      by_cases stops : s ≠ through
      · simp only [if_pos stops] at after
        rcases Program.bind_eq_some after with ⟨_, _, stored, ended⟩
        cases ended
        refine .inr ⟨stops, ?_, [], log, rfl, same, ?_⟩
        · rw [List.map_singleton, List.map_cons, node]
          exact List.prefix_append [child.self] _
        · rw [Context.set_eq_some stored]
          exact Function.update_self _ _ _
      · simp only [if_neg stops] at after
        rcases Program.bind_eq_some after with ⟨⟨t, logs⟩, _, rest, ended⟩
        cases ended
        rcases inductionHypothesis rest with whole | early
        · refine .inl ⟨whole.goesOn, ?_, ?_⟩
          · rw [List.map_cons, List.map_cons, node, whole.ticked]
          · intro call member
            rcases List.mem_cons.mp member with rfl | later
            · exact same.trans (Decidable.not_not.mp stops)
            · exact whole.statuses call later
        · rcases early.last with ⟨earlier, last, rfl, stopped, stored⟩
          refine .inr ⟨early.stops, ?_, log :: earlier, last, rfl, stopped, ?_⟩
          · rw [List.map_cons, List.map_cons, node]
            exact List.prefix_cons_inj _ |>.mpr early.ticked
          · rw [stored, List.length_cons]
            congr 2
            omega

/-- The update of a selector or a sequence is its loop over the children from the
entry that it finds. -/
theorem ordered_updated {kind : CompositeKind} {log : Log ι} (loops : kind.through = some through)
    (updated : (Node.composite self kind children).update setting fuel w = some ((status, log), final)) :
    Exists fun calls => Exists fun middle : World ι σ =>
      log = .inner self ((w.cells self).getD 0) status calls ∧ children ≠ [] ∧
      inOrder through self (Context.start ((w.cells self).getD 0) children.length)
        ((children.drop (Context.start ((w.cells self).getD 0) children.length)).map
          (Node.update setting fuel)) w = some ((status, calls), middle) ∧
      Node.resetUnlessRunning setting (.composite self kind children) status middle = some ((), final) := by
  cases Node.update_updated updated with
  | inner executed picks reset =>
      rename_i calls middle
      have looped : ordered through self (children.map (Node.update setting fuel)) w =
          some ((status, calls), middle) := by
        rw [Node.execute, Node.updates_eq] at executed
        cases kind with
        | selector withStateful =>
            cases loops
            exact executed
        | sequence withStateful =>
            cases loops
            exact executed
        | _ => cases loops
      rcases ordered_eq_some looped with ⟨nonempty, rest⟩
      rw [List.length_map, ← List.map_drop] at rest
      exact ⟨calls, middle, rfl, fun empty => nonempty (by rw [empty, List.map_nil]), rest, reset⟩

end Loop

/-! ## The documented updates -/

/-- What the comments say of an update: the children are ticked in order from the
first one, and it returns the status of the loop only if every child returned it. -/
structure Documented (through : Status) (children : List ι) (log : Log ι) : Prop where
  inOrder : log.calls.map Log.node <+: children
  starts : log.calls ≠ []
  ended : log.status = through -> forall child, child ∈ children ->
    Exists fun call => call ∈ log.calls ∧ call.node = child ∧ call.status = through

instance (through : Status) (children : List ι) (log : Log ι) : Decidable (Documented through children log) :=
  decidable_of_iff
    (log.calls.map Log.node <+: children ∧ log.calls.isEmpty = false ∧
      (log.status = through -> forall child, child ∈ children ->
        Exists fun call => call ∈ log.calls ∧ call.node = child ∧ call.status = through))
    ⟨fun ⟨inOrder, starts, ended⟩ => ⟨inOrder, List.isEmpty_eq_false_iff.mp starts, ended⟩,
      fun ⟨inOrder, starts, ended⟩ => ⟨inOrder, List.isEmpty_eq_false_iff.mpr starts, ended⟩⟩

theorem Context.start_eq_zero {index : Int} {size : Nat} (nonempty : size ≠ 0) :
    Context.start index size = 0 ↔ index = 0 := by
  unfold Context.start
  split <;> omega

omit [DecidableEq ι] in
/-- A walk that starts at the first of different names starts nowhere else. -/
theorem start_unique {names ticked : List ι} (different : names.Nodup) {start : Nat}
    (later : ticked <+: names.drop start) (first : ticked <+: names) (starts : ticked ≠ []) :
    start = 0 := by
  rcases List.exists_cons_of_ne_nil starts with ⟨name, rest, rfl⟩
  rcases first with ⟨others, rfl⟩
  cases start with
  | zero => rfl
  | succ start =>
      have again : name ∈ (rest ++ others).drop start := later.subset List.mem_cons_self
      exact absurd (List.mem_of_mem_drop again) (List.nodup_cons.mp different).1

section Documentation

variable {setting : Setting ι σ} {fuel : Nat} {through status : Status} {self : ι}
  {children : List (Node ι)} {w final : World ι σ} {kind : CompositeKind} {log : Log ι}

/-- An update of a selector or a sequence is the documented one if and only if
the node finds no entry or the index 0. -/
theorem documented_iff (loops : kind.through = some through)
    (different : (children.map Node.self).Nodup)
    (updated : (Node.composite self kind children).update setting fuel w = some ((status, log), final)) :
    Documented through (children.map Node.self) log ↔ log.entry = 0 := by
  rcases ordered_updated loops updated with ⟨calls, middle, rfl, nonempty, looped, reset⟩
  have size : children.length ≠ 0 := fun none_ => nonempty (List.length_eq_zero_iff.mp none_)
  have returned := inOrder_returned looped
  constructor
  · intro documented
    apply (Context.start_eq_zero size).mp
    refine start_unique different ?_ documented.inOrder (List.map_eq_nil_iff.not.mpr documented.starts)
    rw [← List.map_drop]
    rcases returned with whole | early
    · exact whole.order
    · exact early.ticked
  · intro found
    change (w.cells self).getD 0 = 0 at found
    rw [found, (Context.start_eq_zero size).mpr rfl, List.drop_zero] at returned
    rcases returned with whole | early
    · refine ⟨whole.order, ?_, ?_⟩
      · rintro rfl
        exact nonempty (List.map_eq_nil_iff.mp whole.ticked.symm)
      · intro _ child member
        rw [← whole.ticked] at member
        rcases List.mem_map.mp member with ⟨call, listed, node⟩
        exact ⟨call, listed, node, whole.statuses call listed⟩
    · refine ⟨early.ticked, ?_, fun same => absurd same early.stops⟩
      rcases early.last with ⟨earlier, last, rfl, _⟩
      exact List.concat_ne_nil _ _

/-- In every run, an update of a selector or a sequence of the tree is the
documented one exactly when the node finds no entry or the index 0. -/
theorem run_documented {root : Node ι} {changes : List (σ -> σ)} {environment : σ}
    {results : List (Status × Log ι)} (different : root.ids.Nodup)
    (member : .composite self kind children ∈ root.nodes) (loops : kind.through = some through)
    (ran : root.run setting fuel changes (World.new environment) = some (results, final))
    {result : Status × Log ι} (ticked : result ∈ results) {exit : Log ι}
    (made : exit ∈ result.2.exits) (own : exit.node = self) :
    Documented through (children.map Node.self) exit ↔ exit.entry = 0 := by
  rcases Node.run_updated ran ticked with ⟨before, after, updated⟩
  rcases Node.exits_updated updated made with ⟨sub, found, start, stop, subUpdated⟩
  have same := (Node.update_log subUpdated).1.symm.trans own
  cases Node.eq_of_self different found member same
  exact documented_iff loops (Node.children_nodup different member) subUpdated

end Documentation

/-- A selector of two leaves that fails in its second tick without the first leaf,
which would succeed. -/
theorem selector_resumes :
    Exists fun results => Exists fun final : World Nat Nat =>
      (Node.composite 0 (.selector false) [.leaf 1, .leaf 2]).run
        (.scripted fun name tick => if name = tick then .failure else if name = 1 then .success else .running)
        0 [fun tick => tick + 1, fun tick => tick + 1] (World.new 0) = some (results, final) ∧
      results.map (fun result => (result.1, result.2.leaves)) =
        [(.running, [(1, .failure), (2, .running)]), (.failure, [(2, .failure)])] ∧
      ¬ forall result, result ∈ results -> forall exit, exit ∈ result.2.exits -> exit.node = 0 ->
        Documented .failure [1, 2] exit := by
  have facts : ((Node.composite 0 (.selector false) [.leaf 1, .leaf 2]).run
      (.scripted fun name tick => if name = tick then .failure else if name = 1 then .success else .running)
      0 [fun tick => tick + 1, fun tick => tick + 1] (World.new 0)).map (fun ran =>
        (ran.1.map (fun result => (result.1, result.2.leaves)),
          decide (forall result, result ∈ ran.1 -> forall exit, exit ∈ result.2.exits ->
            exit.node = 0 -> Documented .failure [1, 2] exit))) =
      some ([(.running, [(1, .failure), (2, .running)]), (.failure, [(2, .failure)])], false) := by
    decide +kernel
  rcases Option.map_eq_some_iff.mp facts with ⟨⟨results, final⟩, ran, same⟩
  rcases Prod.mk.inj same with ⟨leaves, violated⟩
  exact ⟨results, final, ran, leaves, of_decide_eq_false violated⟩

/-- The first tick of the same selector. -/
theorem run_documented_first_tick :
    Exists fun log : Log Nat => log.leaves = [(1, .failure), (2, .running)] ∧
      Documented .failure [1, 2] log := by
  have facts : ((Node.composite 0 (.selector false) [.leaf 1, .leaf 2]).run
      (.scripted fun name (_ : Nat) => if name = 1 then .failure else .running)
      0 [fun tick => tick] (World.new 0)).map (fun ran =>
        ran.1.map fun result => (result.2.leaves, result.2.node, result.2.entry)) =
      some [([(1, .failure), (2, .running)], 0, 0)] := by
    decide +kernel
  rcases Option.map_eq_some_iff.mp facts with ⟨⟨results, final⟩, ran, same⟩
  rcases List.map_eq_singleton_iff.mp same with ⟨result, rfl, values⟩
  rcases Prod.mk.inj values with ⟨leaves, values⟩
  rcases Prod.mk.inj values with ⟨node, entry⟩
  have documented := run_documented (by decide) (Node.self_mem_nodes _) rfl ran (List.mem_singleton_self _)
    (Log.self_mem_exits _) node
  exact ⟨result.2, leaves, documented.mpr entry⟩

end Brain
end ServerTech
