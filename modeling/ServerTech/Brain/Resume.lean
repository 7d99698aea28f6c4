import ServerTech.Brain.Memory

namespace ServerTech
namespace Brain

open Program
open Transition

variable {ι σ : Type} [DecidableEq ι]

/-!
# Where an update resumes

A selector or a sequence stores the index of the child at which it stops, and the
next update starts there.  If the stored index could reach the number of children
then the loop would not make a single round, and a selector would fail, or a
sequence succeed, without having asked any child.

The entry of one node is followed through updates and resets of any nodes of the
tree.  Only the node itself writes it, and a `reset` erases it or leaves it alone.
-/

/-- The entry of a node with so many children. -/
def InRange (size : Nat) (entry : Option Int) : Prop :=
  forall index, entry = some index -> 0 ≤ index ∧ index < size

theorem inRange_none (size : Nat) : InRange size none :=
  nofun

theorem InRange.erased {size : Nat} {entry : Option Int} (range : InRange size entry) {erases : Prop}
    [Decidable erases] : InRange size (if erases then none else entry) := by
  split
  · exact inRange_none size
  · exact range

/-- A loop that starts at an entry in range makes a round. -/
theorem InRange.start_lt {size : Nat} {entry : Option Int} (range : InRange size entry)
    (some_ : 0 < size) : Context.start (entry.getD 0) size < size := by
  unfold Context.start
  cases entry with
  | none => exact some_
  | some index =>
      have bounds := range index rfl
      change (if index < 0 then size else index.toNat) < size
      rw [if_neg (Int.not_lt.mpr bounds.1)]
      omega

/-! ## One update -/

section Following

variable {setting : Setting ι σ} {fuel : Nat} {root node : Node ι} {self : ι} {through status : Status}
  {kind : CompositeKind} {children : List (Node ι)} {w final : World ι σ} {log : Log ι}

omit [DecidableEq ι] in
/-- The status of a loop that ends is one that resets the node. -/
theorem resets_through (loops : kind.through = some through) : kind.resets through = true := by
  cases kind with
  | selector withStateful =>
      cases loops
      cases withStateful <;> rfl
  | sequence withStateful =>
      cases loops
      cases withStateful <;> rfl
  | _ => cases loops

/-- The update of the node itself, from an entry in range: it ticks a child, and
what it stores is in range. -/
theorem own_inRange (own : setting.Own) (different : root.ids.Nodup)
    (member : .composite self kind children ∈ root.nodes) (loops : kind.through = some through)
    (range : InRange children.length (w.cells self))
    (updated : (Node.composite self kind children).update setting fuel w = some ((status, log), final)) :
    InRange children.length (final.cells self) ∧ log.calls ≠ [] := by
  rcases ordered_updated loops updated with ⟨calls, middle, rfl, nonempty, looped, reset⟩
  have starts := range.start_lt (List.length_pos_iff.mpr nonempty)
  revert looped
  generalize Context.start ((w.cells self).getD 0) children.length = start at starts
  intro looped
  have left : (children.drop start).length = children.length - start := List.length_drop
  rw [Node.ends_erases own (leaf_absent different member member) reset]
  rcases inOrder_returned looped with whole | early
  · have ticked := congrArg List.length whole.ticked
    rw [List.length_map, List.length_map, left] at ticked
    have reaches : status ≠ .running ∧ self ∈ (Node.composite self kind children).reached status := by
      rw [whole.goesOn]
      refine ⟨through_ne_running loops, ?_⟩
      rw [Node.reached, if_pos (resets_through loops)]
      exact List.mem_cons_self
    rw [if_pos reaches]
    refine ⟨inRange_none _, ?_⟩
    rintro rfl
    rw [List.length_nil] at ticked
    omega
  · rcases early.last with ⟨earlier, last, rfl, _, stored⟩
    have ticked := early.ticked.length_le
    rw [List.length_map, List.length_map, left, List.length_append, List.length_singleton] at ticked
    have range : InRange children.length (middle.cells self) := by
      intro index entry
      rw [stored] at entry
      cases entry
      omega
    exact ⟨range.erased, List.concat_ne_nil _ _⟩

/-- An update anywhere in the tree keeps the entry in range, and the node ticks a
child whenever it is updated below. -/
theorem update_inRange (own : setting.Own) (different : root.ids.Nodup)
    (member : .composite self kind children ∈ root.nodes) (loops : kind.through = some through)
    (inTree : node ∈ root.nodes) (range : InRange children.length (w.cells self))
    (updated : node.update setting fuel w = some ((status, log), final)) :
    InRange children.length (final.cells self) ∧
      forall exit, exit ∈ log.exits -> exit.node = self -> exit.calls ≠ [] := by
  induction node using Node.induction generalizing w status log final with
  | step node inductionHypothesis =>
      have named := (Node.update_log updated).1
      by_cases itself : node.self = self
      · cases Node.eq_of_self different inTree member itself
        have ticks := own_inRange own different member loops range updated
        refine ⟨ticks.1, ?_⟩
        intro exit made same
        rcases Log.mem_exits.mp made with ⟨call, called, inside⟩ | rfl
        · exact absurd same (below_quiet different member updated called inside).1
        · exact ticks.2
      · have other : self ∉ ({node.self} : Set ι) := fun same => itself same.symm
        cases Node.update_updated updated with
        | leaf executed reset =>
            rename_i leaf middle
            rw [Node.ends_erases own (leaf_absent different member inTree) reset,
              own.execute leaf executed self other]
            refine ⟨range.erased, ?_⟩
            intro exit made same
            rw [List.mem_singleton.mp made] at same
            exact absurd same itself
        | inner executed picks reset =>
            rename_i calls middle
            have walked : InRange children.length (middle.cells self) ∧ forall call, call ∈ calls ->
                forall exit, exit ∈ call.exits -> exit.node = self -> exit.calls ≠ [] := by
              apply @Picks.invariant ι σ _ _ _ _ _ _ (fun w => InRange children.length (w.cells self)) _ picks
              · intro w value kept
                change InRange children.length (Function.update w.cells node.self value self)
                rw [Function.update_of_ne fun same => itself same.symm]
                exact kept
              · exact fun _ _ kept => kept
              · intro tick listed w final status log kept ticked
                rcases List.mem_map.mp listed with ⟨child, turn, rfl⟩
                have below := Node.turns_subset fuel node turn
                have inTree' := (Node.nodes_sublist inTree).subset
                  (Node.child_nodes below (Node.self_mem_nodes child))
                exact inductionHypothesis child below inTree' kept ticked
              · exact range
            rw [Node.ends_erases own (leaf_absent different member inTree) reset]
            refine ⟨walked.1.erased, ?_⟩
            intro exit made same
            rcases Log.mem_exits.mp made with ⟨call, called, inside⟩ | rfl
            · exact walked.2 call called exit inside same
            · exact absurd same itself

end Following

/-! ## Runs of updates and resets -/

/-- A call from outside for some node of the tree, or a change of the
environment. -/
inductive Visit (ι σ : Type)
  | update (status : Status) (log : Log ι)
  | reset (status : Status)
  | change (change : σ -> σ)

inductive Visits (setting : Setting ι σ) (fuel : Nat) (root : Node ι) :
    World ι σ -> Visit ι σ -> World ι σ -> Prop
  | update {node : Node ι} {w final : World ι σ} {status : Status} {log : Log ι}
      (inTree : node ∈ root.nodes) (updated : node.update setting fuel w = some ((status, log), final)) :
      Visits setting fuel root w (.update status log) final
  | reset {node : Node ι} {w final : World ι σ} {status : Status} (inTree : node ∈ root.nodes)
      (returned : node.reset setting status w = some ((), final)) :
      Visits setting fuel root w (.reset status) final
  | change (w : World ι σ) (change : σ -> σ) :
      Visits setting fuel root w (.change change) { w with outside := change w.outside }

section Runs

variable {setting : Setting ι σ} {fuel : Nat} {root : Node ι} {self : ι} {through : Status}
  {kind : CompositeKind} {children : List (Node ι)} {w final : World ι σ}

/-- What one visit preserves. -/
theorem visits_inRange (own : setting.Own) (different : root.ids.Nodup)
    (member : .composite self kind children ∈ root.nodes) (loops : kind.through = some through)
    {visit : Visit ι σ} (visits : Visits setting fuel root w visit final)
    (range : InRange children.length (w.cells self)) :
    InRange children.length (final.cells self) ∧
      forall status log, visit = .update status log ->
        forall exit, exit ∈ log.exits -> exit.node = self -> exit.calls ≠ [] := by
  cases visits with
  | update inTree updated =>
      have kept := update_inRange own different member loops inTree range updated
      refine ⟨kept.1, ?_⟩
      intro status log same
      cases same
      exact kept.2
  | reset inTree returned =>
      rw [Node.reset_erases own (leaf_absent different member inTree) returned]
      exact ⟨range.erased, nofun⟩
  | change => exact ⟨range, nofun⟩

/-- In every run of updates and resets from an empty context, the entry of a
selector or a sequence is less than its number of children, the next update of
the node starts at a child, and no update of it in the run ended without having
ticked one. -/
theorem run_inRange (own : setting.Own) (different : root.ids.Nodup)
    (member : .composite self kind children ∈ root.nodes) (loops : kind.through = some through)
    (nonempty : children ≠ []) {environment : σ} {visits : List (Visit ι σ)}
    (run : Run (Visits setting fuel root) (World.new environment) visits final) :
    (forall index, final.cells self = some index -> 0 ≤ index ∧ index < children.length) ∧
    Context.start ((final.cells self).getD 0) children.length < children.length ∧
    forall status log, .update status log ∈ visits ->
      forall exit, exit ∈ log.exits -> exit.node = self -> exit.calls ≠ [] := by
  have preserved : forall before visit after, InRange children.length (before.cells self) ->
      Visits setting fuel root before visit after -> InRange children.length (after.cells self) :=
    fun _ _ _ range visits => (visits_inRange own different member loops visits range).1
  have initial : InRange children.length ((World.new environment : World ι σ).cells self) :=
    inRange_none _
  have range := run.invariant preserved initial
  refine ⟨range, range.start_lt (List.length_pos_iff.mpr nonempty), ?_⟩
  intro status log visited
  rcases List.append_of_mem visited with ⟨earlier, later, rfl⟩
  rcases run.through with ⟨before, after, reached, visits, _⟩
  exact (visits_inRange own different member loops visits (reached.invariant preserved initial)).2
    status log rfl

end Runs

/-- A stateful selector that stopped at its second child and was then reset with
`Success`, which it ignores. -/
theorem run_inRange_selector :
    Exists fun log => Exists fun final : World Nat Unit =>
      Run (Visits (.scripted fun name _ => if name = 1 then .failure else .running) 0
        (.composite 0 (.selector true) [.leaf 1, .leaf 2])) (World.new ())
        [.update .running log, .reset .success] final ∧
      final.cells 0 = some 1 ∧ forall index, final.cells 0 = some index -> 0 ≤ index ∧ index < 2 := by
  have ticked : ((Node.composite 0 (.selector true) [.leaf 1, .leaf 2]).update
      (.scripted fun name (_ : Unit) => if name = 1 then .failure else .running) 0 (World.new ())).map
        (fun result => (result.1.1, result.2.cells 0)) = some (.running, some 1) := by
    decide +kernel
  rcases Option.map_eq_some_iff.mp ticked with ⟨⟨⟨status, log⟩, final⟩, updated, same⟩
  rcases Prod.mk.inj same with ⟨rfl, entry⟩
  have visits := Run.snoc (Run.snoc (Run.refl _) (Visits.update (Node.self_mem_nodes _) updated))
    (@Visits.reset _ _ _ _ _ _ _ final final .success (Node.self_mem_nodes _) rfl)
  have own : (Setting.scripted fun name (_ : Unit) => if name = 1 then Status.failure else .running).Own :=
    (Node.scripted_local _).own
  have range := (run_inRange own (by decide) (Node.self_mem_nodes _) rfl (by decide) visits).1
  exact ⟨log, final, visits, entry, range⟩

end Brain
end ServerTech
