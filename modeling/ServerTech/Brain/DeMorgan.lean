import Mathlib.Data.List.Nodup
import Mathlib.Data.List.Pairwise
import ServerTech.Brain.Cleanup

namespace ServerTech
namespace Brain

open Program

variable {ι σ : Type} [DecidableEq ι] {setting : Setting ι σ} {fuel : Nat}

/-!
# The De Morgan law of behaviour trees

An inverted sequence of children behaves like a selector of the inverted
children.  The two trees keep different entries: the sequence and the selector
remember the child they stopped at under different names, and the inverters of
the second tree reset their children once more.  The relation that every tick
keeps is that the environments and the entries of the children are the same, and
that the sequence and the selector remember the same child.
-/

/-- An inner node of a tree without stateful composites, with its `reset` carried
out. -/
theorem Node.update_eq {node : Node ι} (tidy : setting.Local) (plain : node.Plain)
    (inner : forall self, node ≠ .leaf self) (w : World ι σ) :
    node.update setting fuel w = (node.execute setting fuel w).map fun result =>
      ((result.1.1, .inner node.self ((w.cells node.self).getD 0) result.1.1 result.1.2),
        if result.1.1 = .running then result.2 else World.erase result.2 node.ids) := by
  rw [update_inner inner, Program.bind_apply]
  change ((node.execute setting fuel >>= _) w) = _
  rw [Program.bind_apply]
  cases node.execute setting fuel w with
  | none => rfl
  | some result =>
      rw [Option.bind_some, Option.map_some]
      change ((resetUnlessRunning setting node result.1.1 >>= _) result.2) = _
      rw [Program.bind_apply, resetUnlessRunning_eq tidy plain]
      rfl

/-! ## The two trees -/

/-- The inverted sequence of the children. -/
def invertedSequence (inverter sequence : ι) (children : List (ι × Node ι)) : Node ι :=
  .decorator inverter .inverter (.composite sequence (.sequence false) (children.map Prod.snd))

/-- A child below an inverter of its own. -/
def invertedChild (child : ι × Node ι) : Node ι :=
  .decorator child.1 .inverter child.2

/-- The selector of the inverted children. -/
def selectorOfInverted (selector : ι) (children : List (ι × Node ι)) : Node ι :=
  .composite selector (.selector false) (children.map invertedChild)

/-- What the two trees may not share: the entries of the children belong to the
children only. -/
structure Apart (names : Set ι) (sequence selector : ι) (children : List (ι × Node ι)) : Prop where
  sequence : sequence ∉ names
  selector : selector ∉ names
  inverter : forall child, child ∈ children -> child.1 ∉ names
  inside : forall child, child ∈ children -> child.2.names ⊆ names
  covered : forall name, name ∈ names -> Exists fun child => child ∈ children ∧ name ∈ child.2.ids
  plain : forall child, child ∈ children -> child.2.Plain

theorem Status.invert_running {status : Status} : status.invert = .running ↔ status = .running := by
  cases status <;> decide

theorem Status.invert_failure {status : Status} : status.invert = .failure ↔ status = .success := by
  cases status <;> decide

variable {names : Set ι} {sequence selector : ι} {children : List (ι × Node ι)} {s t : World ι σ}

/-- An update of a child and of the child below its inverter. -/
structure Inverted (names : Set ι) (left right : (Status × Log ι) × World ι σ) : Prop where
  status : right.1.1 = left.1.1.invert
  leaves : right.1.2.leaves = left.1.2.leaves
  agree : Agree names left.2 right.2

omit [DecidableEq ι] in
theorem plain_inverter {name : ι} {child : Node ι} (plain : child.Plain) :
    (Node.decorator name .inverter child).Plain := by
  refine Node.plain_iff.mpr ⟨rfl, ?_⟩
  intro other member
  cases List.mem_singleton.mp member
  exact plain

theorem inverter_update (tidy : setting.Local) {name : ι} {child : Node ι} (plain : child.Plain)
    (w : World ι σ) :
    (Node.decorator name .inverter child).update setting fuel w =
      (child.update setting fuel w).map fun result =>
        ((result.1.1.invert, .inner name ((w.cells name).getD 0) result.1.1.invert [result.1.2]),
          if result.1.1 = .running then result.2 else World.erase result.2 (name :: child.ids)) := by
  have ids : (Node.decorator name .inverter child).ids = name :: child.ids := by
    rw [Node.ids_eq, Node.children, List.flatMap_singleton]
    rfl
  have inner : forall self, Node.decorator name .inverter child ≠ .leaf self := by
    intro self same
    cases same
  rw [Node.update_eq tidy (plain_inverter plain) inner, ids]
  change ((child.update setting fuel >>= _) w).map _ = _
  rw [Program.bind_apply]
  cases child.update setting fuel w with
  | none => rfl
  | some result =>
      change some ((result.1.1.invert, _), if result.1.1.invert = .running then _ else _) = _
      simp only [Status.invert_running]
      rfl

theorem invertedChild_update (tidy : setting.Local) (apart : Apart names sequence selector children)
    {child : ι × Node ι} (member : child ∈ children) (agree : Agree names s t) :
    Option.Rel (Inverted names) (child.2.update setting fuel s)
      ((invertedChild child).update setting fuel t) := by
  have confined := (Node.update_confined tidy fuel child.2).mono (apart.inside child member)
  have plain := apart.plain child member
  rw [invertedChild, inverter_update tidy plain]
  cases updated : child.2.update setting fuel s with
  | none =>
      rw [confined.eq_none agree updated]
      exact .none
  | some result =>
      rcases result with ⟨⟨status, log⟩, final⟩
      rcases confined.respects agree updated with ⟨final', same, agree'⟩
      rw [same, Option.map_some]
      refine .some ⟨rfl, ?_, ?_⟩
      · rw [Log.leaves_inner, List.flatMap_singleton]
      · by_cases runs : status = .running
        · rw [if_pos runs]
          exact agree'
        · rw [if_neg runs]
          refine ⟨agree'.outside, ?_⟩
          intro name inside
          change final.cells name = if name ∈ child.1 :: child.2.ids then none else final'.cells name
          by_cases erased : name ∈ child.1 :: child.2.ids
          · rw [if_pos erased]
            have below : name ∈ child.2.ids := by
              refine (List.mem_cons.mp erased).resolve_left ?_
              rintro rfl
              exact apart.inverter child member inside
            exact (Node.update_cleans tidy plain updated runs).1 name below
          · rw [if_neg erased]
            exact agree'.cells name inside

/-! ## One tick -/

/-- What the loops of the sequence and of the selector leave behind. -/
structure Mirrored (names : Set ι) (sequence selector : ι)
    (left right : (Status × List (Log ι)) × World ι σ) : Prop where
  status : right.1.1 = left.1.1.invert
  leaves : right.1.2.flatMap Log.leaves = left.1.2.flatMap Log.leaves
  agree : Agree names left.2 right.2
  index : left.1.1 ≠ .success -> left.2.cells sequence = right.2.cells selector

/-- The two loops, from the same child on. -/
theorem inOrder_mirrored (tidy : setting.Local) (apart : Apart names sequence selector children)
    (agree : Agree names s t) (i : Nat) {rest : List (ι × Node ι)} (suffix : rest ⊆ children) :
    Option.Rel (Mirrored names sequence selector)
      (inOrder .success sequence i (rest.map fun child => child.2.update setting fuel) s)
      (inOrder .failure selector i
        (rest.map fun child => (invertedChild child).update setting fuel) t) := by
  induction rest generalizing i s t with
  | nil => exact .some ⟨rfl, rfl, agree, fun other => absurd rfl other⟩
  | cons child rest inductionHypothesis =>
      refine rel_bind (invertedChild_update tidy apart (suffix List.mem_cons_self) agree) ?_
      rintro ⟨status, log⟩ middle ⟨status', log'⟩ middle' ⟨inverted, leaves, agreeMiddle⟩
      change status' = status.invert at inverted
      subst inverted
      simp only
      by_cases stops : status ≠ .success
      · have stops' : status.invert ≠ .failure := fun same => stops (Status.invert_failure.mp same)
        rw [if_pos stops, if_pos stops']
        refine .some ⟨rfl, ?_, agreeMiddle.update apart.sequence apart.selector _ _, ?_⟩
        · rw [List.flatMap_singleton, List.flatMap_singleton]
          exact leaves
        · intro _
          change Function.update middle.cells sequence _ sequence =
            Function.update middle'.cells selector _ selector
          rw [Function.update_self, Function.update_self]
      · have same := Decidable.not_not.mp stops
        rw [if_neg stops, if_neg (not_not_intro (Status.invert_failure.mpr same))]
        refine rel_bind (inductionHypothesis agreeMiddle (i + 1)
          fun other listed => suffix (List.mem_cons_of_mem _ listed)) ?_
        rintro ⟨last, logs⟩ final ⟨last', logs'⟩ final' ⟨status, rest, agree, index⟩
        refine .some ⟨status, ?_, agree, index⟩
        change log'.leaves ++ logs'.flatMap _ = log.leaves ++ logs.flatMap _
        rw [leaves, rest]

/-- The relation between the two trees before and after every tick. -/
structure Similar (names : Set ι) (sequence selector : ι) (s t : World ι σ) : Prop where
  agree : Agree names s t
  index : s.cells sequence = t.cells selector

theorem execute_mirrored (tidy : setting.Local) (apart : Apart names sequence selector children)
    (similar : Similar names sequence selector s t) :
    Option.Rel (Mirrored names sequence selector)
      ((Node.composite sequence (.sequence false) (children.map Prod.snd)).execute setting fuel s)
      ((selectorOfInverted selector children).execute setting fuel t) := by
  simp only [selectorOfInverted, Node.execute, Node.updates_eq, List.map_map]
  change Option.Rel _ (ordered .success sequence _ s) (ordered .failure selector _ t)
  unfold ordered
  simp only [List.isEmpty_map]
  split
  · exact .none
  · change Option.Rel _
      (inOrder .success sequence (Context.start ((s.cells sequence).getD 0) _) (List.drop _ _) s)
      (inOrder .failure selector (Context.start ((t.cells selector).getD 0) _) (List.drop _ _) t)
    rw [similar.index, List.length_map, List.length_map, ← List.map_drop, ← List.map_drop]
    exact inOrder_mirrored tidy apart similar.agree _ (List.drop_subset _ _)

omit [DecidableEq ι] in
theorem Apart.plain_sequence (apart : Apart names sequence selector children) :
    (Node.composite sequence (.sequence false) (children.map Prod.snd)).Plain := by
  refine Node.plain_iff.mpr ⟨rfl, ?_⟩
  intro node member
  rcases List.mem_map.mp member with ⟨child, listed, rfl⟩
  exact apart.plain child listed

omit [DecidableEq ι] in
theorem Apart.plain_selector (apart : Apart names sequence selector children) :
    (selectorOfInverted selector children).Plain := by
  refine Node.plain_iff.mpr ⟨rfl, ?_⟩
  intro node member
  rcases List.mem_map.mp member with ⟨child, listed, rfl⟩
  exact plain_inverter (apart.plain child listed)

omit [DecidableEq ι] in
theorem Apart.mem_sequence (apart : Apart names sequence selector children) {name : ι}
    (inside : name ∈ names) :
    name ∈ (Node.composite sequence (.sequence false) (children.map Prod.snd)).ids := by
  rcases apart.covered name inside with ⟨child, listed, below⟩
  exact Node.child_ids (List.mem_map_of_mem listed) below

omit [DecidableEq ι] in
theorem Apart.mem_selector (apart : Apart names sequence selector children) {name : ι}
    (inside : name ∈ names) : name ∈ (selectorOfInverted selector children).ids := by
  rcases apart.covered name inside with ⟨child, listed, below⟩
  have own : name ∈ (invertedChild child).ids :=
    Node.child_ids (List.mem_singleton_self child.2) below
  exact Node.child_ids (List.mem_map_of_mem listed) own

theorem World.erase_cells {w : World ι σ} {erased : List ι} {name : ι} (member : name ∈ erased) :
    (World.erase w erased).cells name = none :=
  if_pos member

/-- One tick of both trees. -/
structure Ticked (names : Set ι) (sequence selector : ι) (left right : (Status × Log ι) × World ι σ) :
    Prop where
  status : left.1.1 = right.1.1
  leaves : left.1.2.leaves = right.1.2.leaves
  similar : Similar names sequence selector left.2 right.2

theorem update_ticked (tidy : setting.Local) (apart : Apart names sequence selector children)
    (inverter : ι) (similar : Similar names sequence selector s t) :
    Option.Rel (Ticked names sequence selector)
      ((invertedSequence inverter sequence children).update setting fuel s)
      ((selectorOfInverted selector children).update setting fuel t) := by
  rw [invertedSequence, inverter_update tidy apart.plain_sequence,
    Node.update_eq tidy apart.plain_sequence (fun _ same => nomatch same),
    Node.update_eq tidy apart.plain_selector (fun _ same => nomatch same), Option.map_map]
  refine rel_map (execute_mirrored tidy apart similar) ?_
  rintro ⟨⟨status, calls⟩, final⟩ ⟨⟨status', calls'⟩, final'⟩ ⟨inverted, leaves, agree, index⟩
  change status' = status.invert at inverted
  subst inverted
  refine ⟨rfl, ?_, ?_⟩
  · change (Log.inner _ _ _ [Log.inner _ _ _ calls]).leaves = (Log.inner _ _ _ calls').leaves
    rw [Log.leaves_inner, List.flatMap_singleton, Log.leaves_inner, Log.leaves_inner]
    exact leaves.symm
  · change Similar names sequence selector
      (if status = .running then if status = .running then final else _ else
        World.erase (if status = .running then final else World.erase final _) _)
      (if status.invert = .running then final' else World.erase final' _)
    by_cases runs : status = .running
    · rw [if_pos runs, if_pos runs, if_pos (Status.invert_running.mpr runs)]
      exact ⟨agree, index fun same => nomatch runs.symm.trans same⟩
    · rw [if_neg runs, if_neg runs, if_neg (fun same => runs (Status.invert_running.mp same))]
      refine ⟨⟨agree.outside, ?_⟩, ?_⟩
      · intro name inside
        rw [World.erase_cells (List.mem_cons_of_mem _ (apart.mem_sequence inside)),
          World.erase_cells (apart.mem_selector inside)]
      · have left : sequence ∈
            (Node.composite sequence (.sequence false) (children.map Prod.snd)).ids :=
          Node.self_mem_ids _
        have right : selector ∈ (selectorOfInverted selector children).ids := Node.self_mem_ids _
        rw [World.erase_cells (List.mem_cons_of_mem _ left), World.erase_cells right]

/-! ## Whole runs -/

/-- What a run shows from outside: the status of every tick, and the leaves it
executed. -/
def observed (results : List (Status × Log ι)) : List (Status × List (ι × Status)) :=
  results.map fun result => (result.1, result.2.leaves)

theorem run_observed (tidy : setting.Local) (apart : Apart names sequence selector children)
    (inverter : ι) (similar : Similar names sequence selector s t) (changes : List (σ -> σ)) :
    Option.Rel (fun left right => observed left.1 = observed right.1)
      ((invertedSequence inverter sequence children).run setting fuel changes s)
      ((selectorOfInverted selector children).run setting fuel changes t) := by
  induction changes generalizing s t with
  | nil => exact .some rfl
  | cons change changes inductionHypothesis =>
      have changed : Similar names sequence selector { s with outside := change s.outside }
          { t with outside := change t.outside } :=
        ⟨⟨congrArg change similar.agree.outside, similar.agree.cells⟩, similar.index⟩
      refine rel_bind (R := fun left right => Similar names sequence selector left.2 right.2)
        (.some changed) ?_
      rintro _ middle _ middle' similarMiddle
      refine rel_bind (update_ticked tidy apart inverter similarMiddle) ?_
      rintro ⟨status, log⟩ after ⟨status', log'⟩ after' ⟨same, leaves, similarAfter⟩
      refine rel_bind (inductionHypothesis similarAfter) ?_
      rintro results final results' final' rest
      refine .some ?_
      change (status, log.leaves) :: observed results = (status', log'.leaves) :: observed results'
      rw [show status = status' from same, show log.leaves = log'.leaves from leaves, rest]

omit [DecidableEq ι] in
theorem selector_names (selector : ι) (children : List (ι × Node ι)) :
    (selectorOfInverted selector children).ids =
      selector :: children.flatMap fun child => child.1 :: child.2.ids := by
  have inverted : forall child : ι × Node ι, (invertedChild child).ids = child.1 :: child.2.ids := by
    intro child
    rw [invertedChild, Node.ids_eq, Node.children, List.flatMap_singleton]
    rfl
  rw [Node.ids_eq, selectorOfInverted, Node.children, List.flatMap_map]
  simp only [inverted]
  rfl

omit [DecidableEq ι] in
theorem sequence_names (inverter sequence : ι) (children : List (ι × Node ι)) :
    (invertedSequence inverter sequence children).ids =
      inverter :: sequence :: children.flatMap fun child => child.2.ids := by
  rw [Node.ids_eq, invertedSequence, Node.children, List.flatMap_singleton, Node.ids_eq,
    Node.children, List.flatMap_map]
  rfl

omit [DecidableEq ι] in
/-- In trees of different nodes the children share no name with the rest. -/
theorem apart_of_nodup {inverter : ι} (left : (invertedSequence inverter sequence children).ids.Nodup)
    (right : (selectorOfInverted selector children).ids.Nodup)
    (plain : forall child, child ∈ children -> child.2.Plain) :
    Apart {name | Exists fun child => child ∈ children ∧ name ∈ child.2.ids} sequence selector
      children := by
  rw [sequence_names] at left
  rw [selector_names] at right
  rcases List.nodup_flatMap.mp (List.nodup_cons.mp right).2 with ⟨own, different⟩
  refine ⟨?_, ?_, ?_, ?_, fun _ inside => inside, plain⟩
  · rintro ⟨child, member, inside⟩
    have outside := (List.nodup_cons.mp (List.nodup_cons.mp left).2).1
    exact outside (List.mem_flatMap.mpr ⟨child, member, inside⟩)
  · rintro ⟨child, member, inside⟩
    have outside := (List.nodup_cons.mp right).1
    exact outside (List.mem_flatMap.mpr ⟨child, member, List.mem_cons_of_mem _ inside⟩)
  · rintro child member ⟨other, member', inside⟩
    by_cases same : child = other
    · subst same
      exact (List.nodup_cons.mp (own child member)).1 inside
    · have symmetric : Std.Symm (Function.onFun List.Disjoint
          fun child : ι × Node ι => child.1 :: child.2.ids) :=
        ⟨fun _ _ apart _ first second => apart second first⟩
      exact different.forall member member' same List.mem_cons_self (List.mem_cons_of_mem _ inside)
  · intro child member name inside
    exact ⟨child, member, inside⟩

/-- On every run from empty contexts the inverted sequence and the selector of
the inverted children execute the same leaves in the same order and return the
same statuses.  If the leaves return and no assertion fails then both return. -/
theorem run_deMorgan (tidy : setting.Local) {inverter : ι}
    (plain : forall child, child ∈ children -> child.2.Plain)
    (left : (invertedSequence inverter sequence children).ids.Nodup)
    (right : (selectorOfInverted selector children).ids.Nodup)
    (changes : List (σ -> σ)) (environment : σ) :
    ((invertedSequence inverter sequence children).run setting fuel changes
        (World.new environment)).map (fun result => observed result.1) =
      ((selectorOfInverted selector children).run setting fuel changes
        (World.new environment)).map (fun result => observed result.1) ∧
    (children ≠ [] -> (forall child, child ∈ children -> child.2.Complete) ->
      (forall self, Returns (setting.execute self)) ->
      Exists fun result => (selectorOfInverted selector children).run setting fuel changes
        (World.new environment) = some result) := by
  constructor
  · have similar : Similar {name | Exists fun child => child ∈ children ∧ name ∈ child.2.ids}
        sequence selector (World.new environment : World ι σ) (World.new environment) :=
      ⟨.refl _ _, rfl⟩
    exact map_eq_of_rel
      (run_observed tidy (apart_of_nodup left right plain) inverter similar changes)
  · intro nonempty complete leaves
    refine Node.run_returns (Node.update_returns tidy leaves ?_ fuel) changes _
    refine Node.complete_iff.mpr ⟨?_, ?_⟩
    · exact decide_eq_true fun none_ => nonempty (List.map_eq_nil_iff.mp (List.length_eq_zero_iff.mp none_))
    · intro node member
      rcases List.mem_map.mp member with ⟨child, listed, rfl⟩
      refine Node.complete_iff.mpr ⟨rfl, ?_⟩
      intro other inverted
      cases List.mem_singleton.mp inverted
      exact complete child listed

/-- Two ticks of two leaves, of which the second is running in the first tick. -/
theorem run_deMorgan_two_ticks :
    ((invertedSequence 0 1 [(4, .leaf 2), (5, .leaf 3)]).run
        (.scripted fun name tick => if name = 3 ∧ tick = 1 then .running else .success) 0
        [fun tick => tick + 1, fun tick => tick + 1] (World.new 0)).map (fun result => observed result.1) =
      some [(.running, [(2, .success), (3, .running)]), (.failure, [(3, .success)])] ∧
    Exists fun result => (selectorOfInverted 1 [(4, .leaf 2), (5, .leaf 3)]).run
        (.scripted fun name tick => if name = 3 ∧ tick = 1 then .running else .success) 0
        [fun tick => tick + 1, fun tick => tick + 1] (World.new 0) = some result := by
  have tidy := Node.scripted_local fun (name tick : Nat) =>
    if name = 3 ∧ tick = 1 then Status.running else .success
  have plain : forall child : Nat × Node Nat, child ∈ [(4, .leaf 2), (5, .leaf 3)] -> child.2.Plain := by
    decide
  have complete : forall child : Nat × Node Nat, child ∈ [(4, .leaf 2), (5, .leaf 3)] ->
      child.2.Complete := by
    decide
  rcases @run_deMorgan Nat Nat _ _ 0 1 1 _ tidy 0 plain (by decide) (by decide)
    [fun tick => tick + 1, fun tick => tick + 1] 0 with ⟨same, returns⟩
  refine ⟨same.trans ?_, returns (by decide) complete ?_⟩
  · decide +kernel
  · intro self
    exact (Returns.write _ _).bind fun _ => .external _

end Brain
end ServerTech
