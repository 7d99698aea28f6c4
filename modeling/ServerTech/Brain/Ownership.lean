import Mathlib.Data.List.Nodup
import ServerTech.Foundation.Tally
import ServerTech.Foundation.Transition

namespace ServerTech
namespace Brain

open Transition

/-!
# The owner of a tree

A `Tree` has a pointer to its root and one to its blackboard, and its destructor
deletes both.  Nodes and blackboards are named by ids, a pointer that is null has
none.  The heap keeps the live trees in the order of their construction, the ids
for which `delete` was called, and all ids so far, so that a new object gets a
fresh one.

The move constructor leaves null pointers behind.  The move assignment deletes
what the tree has and copies the pointers of the other tree, which keeps them.
How often an id occurs, in live trees and among the deleted ids, never goes down;
this is why a shared pointer is never repaired.
-/

variable {ι : Type}

structure Tree (ι : Type) where
  root : Option ι
  blackboard : Option ι
  deriving DecidableEq

/-- The pointers that are not null. -/
def Tree.ids (tree : Tree ι) : List ι :=
  tree.root.toList ++ tree.blackboard.toList

theorem Tree.ids_eq_nil_iff (tree : Tree ι) : tree.ids = [] <-> tree = ⟨none, none⟩ := by
  rcases tree with ⟨root, blackboard⟩
  cases root with
  | none =>
      cases blackboard with
      | none => exact ⟨fun _ => rfl, fun _ => rfl⟩
      | some board => exact ⟨nofun, nofun⟩
  | some node => exact ⟨nofun, nofun⟩

structure Heap (ι : Type) where
  trees : List (Tree ι)
  deleted : List ι
  allocated : List ι

/-- The member functions of `Tree` that set or delete a pointer.  Trees are named
by their place among the live ones. -/
inductive TreeCall (ι : Type)
  | construct (root blackboard : Option ι)
  | moveConstruct (other : Nat)
  | moveAssign (self other : Nat)
  | reset (self : Nat) (root blackboard : Option ι)
  | destroy (self : Nat)

namespace Heap

def empty : Heap ι :=
  ⟨[], [], []⟩

section Steps

variable [DecidableEq ι]

/-- The ids were never given out. -/
def Fresh (heap : Heap ι) (ids : List ι) : Prop :=
  ids.Nodup ∧ forall id, id ∈ ids -> id ∉ heap.allocated

instance (heap : Heap ι) (ids : List ι) : Decidable (heap.Fresh ids) :=
  inferInstanceAs (Decidable (_ ∧ _))

def construct (heap : Heap ι) (tree : Tree ι) : Option (Heap ι) :=
  if heap.Fresh tree.ids then
    some
      { trees := heap.trees ++ [tree]
        deleted := heap.deleted
        allocated := heap.allocated ++ tree.ids }
  else none

def moveConstruct (heap : Heap ι) (other : Nat) : Option (Heap ι) :=
  heap.trees[other]?.map fun tree =>
    { heap with trees := heap.trees.set other ⟨none, none⟩ ++ [tree] }

/-- `operator=`, which does not ask whether the two trees are the same. -/
def moveAssign (heap : Heap ι) (self other : Nat) : Option (Heap ι) :=
  heap.trees[self]?.bind fun tree =>
    heap.trees[other]?.map fun source =>
      { heap with
        trees := heap.trees.set self source
        deleted := heap.deleted ++ tree.ids }

def reset (heap : Heap ι) (self : Nat) (new : Tree ι) : Option (Heap ι) :=
  if heap.Fresh new.ids then
    heap.trees[self]?.map fun tree =>
      { trees := heap.trees.set self new
        deleted := heap.deleted ++ tree.ids
        allocated := heap.allocated ++ new.ids }
  else none

def destroy (heap : Heap ι) (self : Nat) : Option (Heap ι) :=
  heap.trees[self]?.map fun tree =>
    { heap with
      trees := heap.trees.eraseIdx self
      deleted := heap.deleted ++ tree.ids }

def next (heap : Heap ι) : TreeCall ι -> Option (Heap ι)
  | .construct root blackboard => heap.construct ⟨root, blackboard⟩
  | .moveConstruct other => heap.moveConstruct other
  | .moveAssign self other => heap.moveAssign self other
  | .reset self root blackboard => heap.reset self ⟨root, blackboard⟩
  | .destroy self => heap.destroy self

/-! ## How often an id occurs -/

/-- The number of pointers with the id in live trees, and of its deletions. -/
def copies (heap : Heap ι) (id : ι) : Nat :=
  tally (fun tree : Tree ι => tree.ids.count id) heap.trees + heap.deleted.count id

/-- The ids that a step adds to those that are there. -/
def brought (heap : Heap ι) : TreeCall ι -> List ι
  | .construct root blackboard => (Tree.mk root blackboard).ids
  | .reset _ root blackboard => (Tree.mk root blackboard).ids
  | .moveAssign _ other => (heap.trees[other]?.map Tree.ids).getD []
  | .moveConstruct _ => []
  | .destroy _ => []

/-- A move assignment is from a tree whose pointers are null, as the move
constructor leaves them. -/
def SourceEmpty (heap : Heap ι) : TreeCall ι -> Prop
  | .moveAssign _ other => heap.trees[other]? = some ⟨none, none⟩
  | _ => True

instance (heap : Heap ι) (call : TreeCall ι) : Decidable (heap.SourceEmpty call) := by
  cases call <;> unfold SourceEmpty <;> infer_instance

variable {heap after : Heap ι} {call : TreeCall ι}

/-- What a pointer was replaced by is the only thing that a step adds: what is
deleted stays among the deleted ids. -/
theorem next_copies (taken : heap.next call = some after) (id : ι) :
    after.copies id = heap.copies id + (heap.brought call).count id := by
  cases call with
  | construct root blackboard =>
      change (if _ then _ else _) = _ at taken
      split at taken
      · cases taken
        simp only [copies, brought, tally_append, tally_cons, tally_nil]
        omega
      · cases taken
  | moveConstruct other =>
      rcases Option.map_eq_some_iff.mp taken with ⟨tree, listed, rfl⟩
      have moved := tally_set (fun tree : Tree ι => tree.ids.count id) listed ⟨none, none⟩
      have null : (Tree.mk none none : Tree ι).ids.count id = 0 := rfl
      simp only [copies, brought, tally_append, tally_cons, tally_nil, List.count_nil]
      omega
  | moveAssign self other =>
      rcases Option.bind_eq_some_iff.mp taken with ⟨tree, listed, rest⟩
      rcases Option.map_eq_some_iff.mp rest with ⟨source, found, rfl⟩
      have moved := tally_set (fun tree : Tree ι => tree.ids.count id) listed source
      simp only [copies, brought, List.count_append, found, Option.map_some, Option.getD_some]
      omega
  | reset self root blackboard =>
      change (if _ then _ else _) = _ at taken
      split at taken
      · rcases Option.map_eq_some_iff.mp taken with ⟨tree, listed, rfl⟩
        have moved := tally_set (fun tree : Tree ι => tree.ids.count id) listed ⟨root, blackboard⟩
        simp only [copies, brought, List.count_append]
        omega
      · cases taken
  | destroy self =>
      rcases Option.map_eq_some_iff.mp taken with ⟨tree, listed, rfl⟩
      have dropped := tally_eraseIdx (fun tree : Tree ι => tree.ids.count id) listed
      simp only [copies, brought, List.count_append, List.count_nil]
      omega

end Steps

/-! ## Single owners -/

/-- No id is held by two live trees, none that is held was deleted, and none was
deleted twice. -/
structure SingleOwner (heap : Heap ι) : Prop where
  apart : heap.trees.Pairwise fun first second => forall id, id ∈ first.ids -> id ∉ second.ids
  alive : forall tree, tree ∈ heap.trees -> forall id, id ∈ tree.ids -> id ∉ heap.deleted
  once : heap.deleted.Nodup

section Owners

variable [DecidableEq ι] {heap after : Heap ι} {call : TreeCall ι}

theorem copies_eq (heap : Heap ι) (id : ι) :
    heap.copies id = (heap.trees.flatMap Tree.ids ++ heap.deleted).count id := by
  rw [copies, List.count_append]
  congr 1
  induction heap.trees with
  | nil => rfl
  | cons tree trees inductionHypothesis =>
      rw [tally_cons, inductionHypothesis, List.flatMap_cons, List.count_append]

/-- An owner is the only one when no id occurs twice. -/
theorem singleOwner_iff (pairs : forall tree, tree ∈ heap.trees -> tree.ids.Nodup) :
    heap.SingleOwner <-> forall id, heap.copies id ≤ 1 := by
  have occurs : (forall id, heap.copies id ≤ 1) <->
      (heap.trees.flatMap Tree.ids ++ heap.deleted).Nodup := by
    rw [List.nodup_iff_count_le_one]
    exact forall_congr' fun id => by rw [copies_eq]
  rw [occurs, List.nodup_append, List.nodup_flatMap]
  constructor
  · intro owner
    refine ⟨⟨pairs, owner.apart.imp fun apart id held other => apart id held other⟩, owner.once, ?_⟩
    rintro id held other deleted rfl
    rcases List.mem_flatMap.mp held with ⟨tree, live, inside⟩
    exact owner.alive tree live id inside deleted
  · rintro ⟨⟨_, apart⟩, once, disjoint⟩
    refine ⟨apart.imp fun apart id held other => apart held other, ?_, once⟩
    intro tree live id inside deleted
    exact disjoint id (List.mem_flatMap.mpr ⟨tree, live, inside⟩) id deleted rfl

theorem copies_of_held {tree : Tree ι} (live : tree ∈ heap.trees) {id : ι} (inside : id ∈ tree.ids) :
    0 < heap.copies id := by
  have held := weight_le_tally (fun tree : Tree ι => tree.ids.count id) live
  have some_ := List.count_pos_iff.mpr inside
  rw [copies]
  omega

/-- What holds after any calls: the two pointers of a tree are different, and
only ids that were given out occur. -/
structure Sane (heap : Heap ι) : Prop where
  pairs : forall tree, tree ∈ heap.trees -> tree.ids.Nodup
  known : forall id, 0 < heap.copies id -> id ∈ heap.allocated

theorem next_pairs (pairs : forall tree, tree ∈ heap.trees -> tree.ids.Nodup)
    (taken : heap.next call = some after) : forall tree, tree ∈ after.trees -> tree.ids.Nodup := by
  intro tree live
  cases call with
  | construct root blackboard =>
      change (if _ then _ else _) = _ at taken
      split at taken
      · rename_i fresh
        cases taken
        rcases List.mem_append.mp live with earlier | new
        · exact pairs tree earlier
        · rw [List.mem_singleton.mp new]
          exact fresh.1
      · cases taken
  | moveConstruct other =>
      rcases Option.map_eq_some_iff.mp taken with ⟨moved, listed, rfl⟩
      rcases List.mem_append.mp live with earlier | new
      · rcases List.mem_or_eq_of_mem_set earlier with kept | rfl
        · exact pairs tree kept
        · exact List.nodup_nil
      · rw [List.mem_singleton.mp new]
        exact pairs moved (List.mem_of_getElem? listed)
  | moveAssign self other =>
      rcases Option.bind_eq_some_iff.mp taken with ⟨old, listed, rest⟩
      rcases Option.map_eq_some_iff.mp rest with ⟨source, found, rfl⟩
      rcases List.mem_or_eq_of_mem_set live with kept | rfl
      · exact pairs tree kept
      · exact pairs tree (List.mem_of_getElem? found)
  | reset self root blackboard =>
      change (if _ then _ else _) = _ at taken
      split at taken
      · rename_i fresh
        rcases Option.map_eq_some_iff.mp taken with ⟨old, listed, rfl⟩
        rcases List.mem_or_eq_of_mem_set live with kept | rfl
        · exact pairs tree kept
        · exact fresh.1
      · cases taken
  | destroy self =>
      rcases Option.map_eq_some_iff.mp taken with ⟨old, listed, rfl⟩
      exact pairs tree (List.mem_of_mem_eraseIdx live)

/-- A step that brings ids gives them out, or it takes them from a live tree, and
then it is a move assignment from a tree that holds something. -/
theorem next_brought (taken : heap.next call = some after) :
    (heap.SourceEmpty call ∧ heap.Fresh (heap.brought call) ∧
      after.allocated = heap.allocated ++ heap.brought call) ∨
    (after.allocated = heap.allocated ∧ (heap.SourceEmpty call <-> heap.brought call = []) ∧
      forall id, id ∈ heap.brought call -> 0 < heap.copies id) := by
  cases call with
  | construct root blackboard =>
      change (if _ then _ else _) = _ at taken
      split at taken
      · rename_i fresh
        cases taken
        exact .inl ⟨trivial, fresh, rfl⟩
      · cases taken
  | moveConstruct other =>
      rcases Option.map_eq_some_iff.mp taken with ⟨moved, listed, rfl⟩
      exact .inr ⟨rfl, ⟨fun _ => rfl, fun _ => trivial⟩, nofun⟩
  | moveAssign self other =>
      rcases Option.bind_eq_some_iff.mp taken with ⟨old, listed, rest⟩
      rcases Option.map_eq_some_iff.mp rest with ⟨source, found, rfl⟩
      have same : heap.brought (.moveAssign self other) = source.ids := by
        simp only [brought, found, Option.map_some, Option.getD_some]
      rw [same, Tree.ids_eq_nil_iff, SourceEmpty, found, Option.some.injEq]
      exact .inr ⟨rfl, Iff.rfl, fun id inside => copies_of_held (List.mem_of_getElem? found) inside⟩
  | reset self root blackboard =>
      change (if _ then _ else _) = _ at taken
      split at taken
      · rename_i fresh
        rcases Option.map_eq_some_iff.mp taken with ⟨old, listed, rfl⟩
        exact .inl ⟨trivial, fresh, rfl⟩
      · cases taken
  | destroy self =>
      rcases Option.map_eq_some_iff.mp taken with ⟨old, listed, rfl⟩
      exact .inr ⟨rfl, ⟨fun _ => rfl, fun _ => trivial⟩, nofun⟩

theorem next_sane (sane : heap.Sane) (taken : heap.next call = some after) : after.Sane := by
  refine ⟨next_pairs sane.pairs taken, ?_⟩
  intro id occurs
  rw [next_copies taken] at occurs
  by_cases earlier : 0 < heap.copies id
  · rcases next_brought taken with ⟨_, _, allocated⟩ | ⟨allocated, _⟩
    · rw [allocated]
      exact List.mem_append_left _ (sane.known id earlier)
    · rw [allocated]
      exact sane.known id earlier
  · have new : id ∈ heap.brought call := List.count_pos_iff.mp (by omega)
    rcases next_brought taken with ⟨_, _, allocated⟩ | ⟨_, _, held⟩
    · rw [allocated]
      exact List.mem_append_right _ new
    · exact absurd (held id new) earlier

/-- One step keeps single owners exactly when it does not share a pointer. -/
theorem next_single_iff (sane : heap.Sane) (taken : heap.next call = some after)
    (single : forall id, heap.copies id ≤ 1) :
    (forall id, after.copies id ≤ 1) <-> heap.SourceEmpty call := by
  have copies := next_copies taken
  rcases next_brought taken with ⟨empty, fresh, _⟩ | ⟨_, empty, held⟩
  · refine ⟨fun _ => empty, ?_⟩
    intro _ id
    have once := List.nodup_iff_count_le_one.mp fresh.1 id
    by_cases new : id ∈ heap.brought call
    · have absent : ¬ 0 < heap.copies id := fun some_ => fresh.2 id new (sane.known id some_)
      have grown := copies id
      omega
    · rw [copies, List.count_eq_zero.mpr new]
      exact single id
  · rw [empty]
    constructor
    · intro kept
      apply List.eq_nil_iff_forall_not_mem.mpr
      intro id inside
      have grown := copies id
      have twice := kept id
      have source := held id inside
      have brought := List.count_pos_iff.mpr inside
      omega
    · intro nothing id
      rw [copies, nothing]
      exact single id

/-! ## Runs -/

theorem run_sane {calls : List (TreeCall ι)} {final : Heap ι}
    (run : Run (Stepping next) empty calls final) : final.Sane :=
  run.invariant (fun _ _ _ sane taken => next_sane sane taken) ⟨nofun, fun _ none_ => nomatch none_⟩

/-- After any calls, every id has a single owner if and only if every move
assignment was from a tree without pointers. -/
theorem run_singleOwner_iff {calls : List (TreeCall ι)} {final : Heap ι}
    (run : Run (Stepping next) empty calls final) :
    final.SingleOwner <-> Run (Restrict SourceEmpty (Stepping next)) empty calls final := by
  rw [singleOwner_iff (run_sane run).pairs]
  induction run with
  | refl => exact ⟨fun _ => .refl _, fun _ _ => Nat.zero_le _⟩
  | snoc earlier last inductionHypothesis =>
      rename_i middle final calls call
      have sane := run_sane earlier
      constructor
      · intro single
        have before : forall id, middle.copies id ≤ 1 := by
          intro id
          have grown := next_copies last id
          have after := single id
          omega
        exact .snoc (inductionHypothesis.mp before) ⟨(next_single_iff sane last before).mp single, last⟩
      · intro restricted
        rcases restricted.last with ⟨other, earlier', empty, taken⟩
        have executed := earlier.to_execute
        rw [earlier'.unrestrict.to_execute] at executed
        cases executed
        exact (next_single_iff sane last (inductionHypothesis.mpr earlier')).mpr empty

end Owners

/-- A tree that is moved into another one, assigned from the empty tree that this
leaves behind, and given new pointers. -/
theorem run_singleOwner_moved :
    Exists fun final : Heap Nat =>
      Run (Stepping next) empty
        [.construct (some 0) (some 1), .moveConstruct 0, .construct none (some 2), .moveAssign 2 0,
          .reset 2 (some 3) (some 4), .destroy 1] final ∧
      final.deleted = [2, 0, 1] ∧ final.SingleOwner := by
  have executed : (execute (guarded SourceEmpty next) (empty : Heap Nat)
      [.construct (some 0) (some 1), .moveConstruct 0, .construct none (some 2), .moveAssign 2 0,
        .reset 2 (some 3) (some 4), .destroy 1]).map deleted = some [2, 0, 1] := by
    decide
  rcases Run.of_guarded_map executed with ⟨final, restricted, same⟩
  exact ⟨final, restricted.unrestrict, same, (run_singleOwner_iff restricted.unrestrict).mpr restricted⟩

/-- A tree assigned to another one, and then both are destroyed: its root and its
blackboard are deleted twice.  A tree assigned to itself holds what it has
deleted. -/
theorem moveAssign_shares :
    (Exists fun final : Heap Nat =>
      Run (Stepping next) empty
        [.construct (some 0) (some 1), .construct none (some 2), .moveAssign 1 0, .destroy 1, .destroy 0]
        final ∧
      final.deleted = [2, 0, 1, 0, 1] ∧ ¬ final.SingleOwner) ∧
    Exists fun final : Heap Nat =>
      Run (Stepping next) empty [.construct (some 0) (some 1), .moveAssign 0 0] final ∧
      final.trees = [⟨some 0, some 1⟩] ∧ final.deleted = [0, 1] ∧ ¬ final.SingleOwner := by
  constructor
  · refine ⟨_, Run.of_execute rfl, rfl, ?_⟩
    intro owner
    exact absurd owner.once (by decide)
  · refine ⟨_, Run.of_execute rfl, rfl, rfl, ?_⟩
    intro owner
    exact owner.alive ⟨some 0, some 1⟩ List.mem_cons_self 0 List.mem_cons_self List.mem_cons_self

end Heap
end Brain
end ServerTech
