import ServerTech.Brain.Trace

namespace ServerTech
namespace Brain

open Program

variable {ι σ : Type} [DecidableEq ι]

/-!
# Entries stay in the subtree and are erased when it ends

With leaves that use only their own entry, an update is confined to the entries
of its subtree: it changes no other entry and depends on none.  The proof follows
the programs of the nodes with the rules for footprints.

In a tree without stateful composites `reset` reaches every descendant, whatever
the status is.  So an update that does not return `Running` erases all entries of
its subtree, also those of children that were left running.
-/

/-- The leaves use their own entry only, and keep the default `reset`. -/
structure Setting.Local (setting : Setting ι σ) : Prop where
  execute : forall self, Confined {self} (setting.execute self)
  reset : forall self status, setting.reset self status = Context.set self (-1)

/-! ## Properties of the programs of the nodes -/

/-- The numbers of children for which no assertion fails. -/
def CompositeKind.complete (size : Nat) : CompositeKind -> Bool
  | .ifElse => size = 3
  | _ => size ≠ 0

/-- The decorators without an endless loop whose assertion holds. -/
def DecoratorKind.complete : DecoratorKind -> Bool
  | .retryUntilSuccessful attemps => attemps ≠ 0
  | .untilSuccess | .untilFailure => false
  | _ => true

section Compositionality

variable {P : forall {α : Type}, Action ι σ α -> Prop} {self : ι} (closed : Compositional P self)
  {tick : Tick ι σ} {ticks : List (Tick ι σ)}

include closed

theorem Context.get_closed : P (Context.get self : Action ι σ Int) :=
  closed.bind closed.read fun _ => closed.pure _

theorem Context.set_closed (index : Int) : P (Context.set self index : Action ι σ Unit) :=
  closed.write _

theorem inOrder_closed (through : Status) (i : Nat) (children : forall tick, tick ∈ ticks -> P tick) :
    P (inOrder through self i ticks) := by
  induction ticks generalizing i with
  | nil => exact closed.pure _
  | cons tick ticks inductionHypothesis =>
      refine closed.bind (children tick List.mem_cons_self) ?_
      rintro ⟨s, log⟩
      simp only
      split
      · exact closed.bind (Context.set_closed closed _) fun _ => closed.pure _
      · refine closed.bind (inductionHypothesis _ ?_) fun _ => closed.pure _
        exact fun tick listed => children tick (List.mem_cons_of_mem _ listed)

theorem ordered_closed (through : Status) (stops : ticks.length = 0 -> P (failure : Action ι σ (Status × List (Log ι))))
    (children : forall tick, tick ∈ ticks -> P tick) : P (ordered through self ticks) := by
  unfold ordered
  split
  · rename_i empty
    exact stops (List.length_eq_zero_iff.mpr (List.isEmpty_iff.mp empty))
  · refine closed.bind (Context.get_closed closed) ?_
    intro index
    exact inOrder_closed closed through _ fun tick listed =>
      children tick (List.mem_of_mem_drop listed)

theorem ifElse_closed (stops : ticks.length ≠ 3 -> P (failure : Action ι σ (Status × List (Log ι))))
    (children : forall tick, tick ∈ ticks -> P tick) : P (ifElse ticks) := by
  unfold ifElse
  split
  · rename_i condition yes no
    refine closed.bind (children condition (by simp only [List.mem_cons, true_or])) ?_
    rintro ⟨s, log⟩
    simp only
    split
    · exact closed.bind (children yes (by simp only [List.mem_cons, true_or, or_true]))
        fun _ => closed.pure _
    · exact closed.bind (children no (by simp only [List.mem_cons, true_or, or_true]))
        fun _ => closed.pure _
  · rename_i other
    apply stops
    intro three
    match ticks, three with
    | [first, second, third], _ => exact other first second third rfl

theorem updateAll_closed (children : forall tick, tick ∈ ticks -> P tick) : P (updateAll ticks) := by
  induction ticks with
  | nil => exact closed.pure _
  | cons tick ticks inductionHypothesis =>
      refine closed.bind (children tick List.mem_cons_self) ?_
      intro result
      refine closed.bind (inductionHypothesis ?_) fun _ => closed.pure _
      exact fun tick listed => children tick (List.mem_cons_of_mem _ listed)

theorem priority_closed (stops : ticks.length = 0 -> P (failure : Action ι σ (Status × List (Log ι))))
    (children : forall tick, tick ∈ ticks -> P tick) : P (priority ticks) := by
  unfold priority
  split
  · exact stops rfl
  · rename_i first others
    refine closed.bind (children first List.mem_cons_self) ?_
    rintro ⟨rs, log⟩
    simp only
    split
    · exact closed.pure _
    · refine closed.bind (updateAll_closed closed ?_) fun _ => closed.pure _
      exact fun tick listed => children tick (List.mem_cons_of_mem _ listed)

theorem parallel_closed (failed succeed : Int) (stops : ticks.length = 0 -> P (failure : Action ι σ (Status × List (Log ι))))
    (children : forall tick, tick ∈ ticks -> P tick) : P (parallel failed succeed ticks) := by
  unfold parallel
  split
  · rename_i empty
    exact stops (List.length_eq_zero_iff.mpr (List.isEmpty_iff.mp empty))
  · exact closed.bind (updateAll_closed closed children) fun _ => closed.pure _

/-- A compositional property of the children holds of every composite. -/
theorem CompositeKind.execute_closed (kind : CompositeKind)
    (stops : kind.complete ticks.length = false -> P (failure : Action ι σ (Status × List (Log ι))))
    (children : forall tick, tick ∈ ticks -> P tick) : P (kind.execute self ticks) := by
  have empty : kind ≠ .ifElse -> ticks.length = 0 -> P (failure : Action ι σ (Status × List (Log ι))) := by
    intro other none_
    apply stops
    rw [none_]
    cases kind with
    | ifElse => exact absurd rfl other
    | _ => rfl
  cases kind with
  | selector withStateful => exact ordered_closed closed _ (empty nofun) children
  | sequence withStateful => exact ordered_closed closed _ (empty nofun) children
  | ifElse => exact ifElse_closed closed (fun other => stops (decide_eq_false other)) children
  | priority => exact priority_closed closed (empty nofun) children
  | parallelCounts failc succc => exact parallel_closed closed _ _ (empty nofun) children
  | parallel failp succp => exact parallel_closed closed _ _ (empty nofun) children

theorem returning_closed (status : Status) (child : P tick) : P (returning status tick) :=
  closed.bind child fun _ => closed.pure _

theorem repeater_closed (limit : Int) (child : P tick) : P (repeater limit self tick) := by
  refine closed.bind (Context.get_closed closed) ?_
  intro entry
  refine closed.bind child ?_
  rintro ⟨_, log⟩
  simp only
  generalize (if 0 < limit then int32 entry + 1 else int32 entry) = count
  split
  · exact closed.pure _
  · exact closed.bind (Context.set_closed closed _) fun _ => closed.pure _

theorem retryUntilSuccessful_closed {num : Nat} (stops : num = 0 -> P (failure : Action ι σ (Status × List (Log ι))))
    (child : P tick) : P (retryUntilSuccessful tick num) := by
  induction num with
  | zero => exact stops rfl
  | succ num inductionHypothesis =>
      refine closed.bind child ?_
      rintro ⟨ret, log⟩
      simp only
      split
      · exact closed.pure _
      · rename_i again
        refine closed.bind (inductionHypothesis ?_) fun _ => closed.pure _
        exact fun none_ => absurd (Or.inr none_) again

theorem duration_closed (now : σ -> Int × σ) (d : Int) (child : P tick) :
    P (duration now d self tick) := by
  refine closed.bind (Context.get_closed closed) ?_
  intro expiretime
  refine closed.bind (closed.external now) ?_
  intro time
  refine closed.bind child ?_
  rintro ⟨s, log⟩
  simp only
  split
  · exact closed.pure _
  · split
    · exact closed.bind (Context.set_closed closed _) fun _ => closed.pure _
    · split
      · exact closed.pure _
      · exact closed.pure _

theorem untilStatus_closed (stop : Status) (fuel : Nat) (stops : P (failure : Action ι σ (Status × List (Log ι))))
    (child : P tick) : P (untilStatus stop tick fuel) := by
  induction fuel with
  | zero => exact stops
  | succ fuel inductionHypothesis =>
      refine closed.bind child ?_
      rintro ⟨s, log⟩
      simp only
      split
      · exact closed.pure _
      · exact closed.bind inductionHypothesis fun _ => closed.pure _

/-- A compositional property of the child holds of every decorator. -/
theorem DecoratorKind.execute_closed (setting : Setting ι σ) (fuel : Nat) (kind : DecoratorKind)
    (stops : kind.complete = false -> P (failure : Action ι σ (Status × List (Log ι)))) (child : P tick) :
    P (kind.execute setting fuel self tick) := by
  cases kind with
  | runner => exact returning_closed closed _ child
  | failer => exact returning_closed closed _ child
  | succeeder => exact returning_closed closed _ child
  | inverter => exact closed.bind child fun _ => closed.pure _
  | repeater limit => exact repeater_closed closed limit child
  | retryUntilSuccessful attemps =>
      refine retryUntilSuccessful_closed closed (fun none_ => stops ?_) child
      exact decide_eq_false (not_not_intro none_)
  | duration d => exact duration_closed closed _ d child
  | untilSuccess => exact untilStatus_closed closed _ fuel (stops rfl) child
  | untilFailure => exact untilStatus_closed closed _ fuel (stops rfl) child

omit closed

namespace Node

variable {setting : Setting ι σ} {fuel : Nat} {node : Node ι} {status : Status}

/-- The condition of the assertions of a node, for a node without endless loop. -/
def complete : Node ι -> Bool
  | .leaf _ => true
  | .composite _ kind children => kind.complete children.length
  | .decorator _ kind _ => kind.complete

/-- A tree whose assertions hold and that has no endless loop. -/
def Complete (node : Node ι) : Prop :=
  forall sub, sub ∈ node.nodes -> sub.complete = true

omit [DecidableEq ι] in
theorem complete_iff :
    node.Complete ↔ node.complete = true ∧ forall child, child ∈ node.children -> child.Complete :=
  forall_nodes

instance (node : Node ι) : Decidable node.Complete :=
  inferInstanceAs (Decidable (forall sub, sub ∈ node.nodes -> sub.complete = true))

theorem resetAll_closed (closed : Compositional P self) {children : List (Node ι)}
    (resets : forall child, child ∈ children -> P (child.reset setting status)) :
    P (resetAll setting status children) := by
  induction children with
  | nil => exact closed.pure _
  | cons child children inductionHypothesis =>
      refine closed.bind (resets child List.mem_cons_self) ?_
      intro _
      exact inductionHypothesis fun other listed => resets other (List.mem_cons_of_mem _ listed)

/-- A compositional property of the leaves' `reset` holds of `reset`. -/
theorem reset_closed (closed : forall name, name ∈ node.ids -> Compositional P name)
    (resets : forall name, name ∈ node.ids -> P (setting.reset name status)) :
    P (node.reset setting status) := by
  induction node using Node.induction with
  | step node inductionHypothesis =>
      have own := closed node.self (self_mem_ids node)
      have below : forall child, child ∈ node.children -> P (child.reset setting status) :=
        fun child member => inductionHypothesis child member
          (fun name inside => closed name (child_ids member inside))
          (fun name inside => resets name (child_ids member inside))
      cases node with
      | leaf self => exact resets self (self_mem_ids (.leaf self))
      | composite self kind children =>
          rw [reset]
          split
          · exact own.bind (Context.set_closed own _) fun _ => resetAll_closed own below
          · exact own.pure _
      | decorator self kind child =>
          exact own.bind (Context.set_closed own _) fun _ => below child (List.mem_singleton_self child)

/-- A compositional property of the leaves holds of `update`, if a failed
assertion and an endless loop have it too or do not occur. -/
theorem update_closed (closed : forall name, name ∈ node.ids -> Compositional P name)
    (executes : forall name, name ∈ node.ids -> P (setting.execute name))
    (resets : forall name status, name ∈ node.ids -> P (setting.reset name status))
    (stops : ¬ node.Complete -> P (failure : Action ι σ (Status × List (Log ι)))) :
    P (node.update setting fuel) := by
  induction node using Node.induction with
  | step node inductionHypothesis =>
      have own := closed node.self (self_mem_ids node)
      have below : forall child, child ∈ node.children -> P (child.update setting fuel) :=
        fun child member => inductionHypothesis child member
          (fun name inside => closed name (child_ids member inside))
          (fun name inside => executes name (child_ids member inside))
          (fun name status inside => resets name status (child_ids member inside))
          (fun incomplete => stops fun complete => incomplete (forall_below complete member))
      have incomplete : node.complete = false -> ¬ node.Complete := by
        intro fails complete
        rw [complete node (self_mem_nodes node)] at fails
        cases fails
      have ends : forall status, P (resetUnlessRunning setting node status) := by
        intro status
        unfold resetUnlessRunning
        split
        · exact reset_closed closed fun name inside => resets name status inside
        · exact own.pure _
      cases node with
      | leaf self =>
          refine own.bind (executes self (self_mem_ids (.leaf self))) ?_
          intro status
          exact own.bind (ends status) fun _ => own.pure _
      | composite self kind children =>
          rw [update, updates_eq]
          refine own.bind (Context.get_closed own) ?_
          intro entry
          refine own.bind (kind.execute_closed own ?_ ?_) ?_
          · rw [List.length_map]
            exact fun fails => stops (incomplete fails)
          · intro tick listed
            rcases List.mem_map.mp listed with ⟨child, member, rfl⟩
            exact below child member
          · rintro ⟨status, calls⟩
            exact own.bind (ends status) fun _ => own.pure _
      | decorator self kind child =>
          refine own.bind (Context.get_closed own) ?_
          intro entry
          refine own.bind (kind.execute_closed own setting fuel (fun fails => stops (incomplete fails))
            (below child (List.mem_singleton_self child))) ?_
          rintro ⟨status, calls⟩
          exact own.bind (ends status) fun _ => own.pure _

end Node

end Compositionality

/-! ## Confinement -/

namespace Node

variable {setting : Setting ι σ} {fuel : Nat} {node : Node ι}

/-- The names of the subtree as a set. -/
def names (node : Node ι) : Set ι :=
  fun name => name ∈ node.ids

theorem closed_names (node : Node ι) (name : ι) (inside : name ∈ node.ids) :
    Compositional (fun {α} program => @Confined ι (Option Int) σ α node.names program) name :=
  compositional_confined inside

theorem reset_confined (tidy : setting.Local) (status : Status) (node : Node ι) :
    Confined node.names (node.reset setting status) := by
  have closed := @closed_names ι σ _ node
  refine reset_closed closed ?_
  intro name inside
  rw [tidy.reset]
  exact Context.set_closed (closed name inside) _

/-- An update is confined to the entries of the subtree. -/
theorem update_confined (tidy : setting.Local) (fuel : Nat) (node : Node ι) :
    Confined node.names (node.update setting fuel) := by
  have closed := @closed_names ι σ _ node
  refine update_closed closed ?_ ?_ fun _ => .failure _
  · intro name inside
    refine (tidy.execute name).mono ?_
    rintro other rfl
    exact inside
  · intro name status inside
    rw [tidy.reset]
    exact Context.set_closed (closed name inside) _

/-- An update of a complete tree returns if the leaves do. -/
theorem update_returns (tidy : setting.Local) (leaves : forall self, Returns (setting.execute self))
    (complete : node.Complete) (fuel : Nat) : Returns (node.update setting fuel) := by
  refine update_closed (fun name _ => compositional_returns name) (fun name _ => leaves name) ?_
    fun incomplete => absurd complete incomplete
  intro name status _
  rw [tidy.reset]
  exact Context.set_closed (compositional_returns name) _

theorem run_returns (updates : Returns (node.update setting fuel)) (changes : List (σ -> σ)) :
    Returns (node.run setting fuel changes) := by
  induction changes with
  | nil => exact .pure _
  | cons change changes inductionHypothesis =>
      refine (Returns.external _).bind fun _ => updates.bind ?_
      intro result
      exact inductionHypothesis.bind fun _ => .pure _

/-! ## Cleaning up -/

end Node

/-- The world without some entries. -/
def World.erase (w : World ι σ) (names : List ι) : World ι σ :=
  { w with cells := fun name => if name ∈ names then none else w.cells name }

theorem World.erase_erase (w : World ι σ) (first second : List ι) :
    (w.erase first).erase second = w.erase (first ++ second) := by
  unfold World.erase
  congr 1
  funext name
  change (if name ∈ second then none else if name ∈ first then none else w.cells name) = _
  by_cases late : name ∈ second
  · rw [if_pos late, if_pos (List.mem_append_right _ late)]
  · by_cases early : name ∈ first
    · rw [if_neg late, if_pos early, if_pos (List.mem_append_left _ early)]
    · rw [if_neg late, if_neg early, if_neg (fun either => (List.mem_append.mp either).elim early late)]

theorem Context.set_erase (self : ι) (w : World ι σ) :
    Context.set self (-1) w = some ((), w.erase [self]) := by
  unfold Context.set Program.write World.erase
  rw [if_pos rfl]
  congr 3
  funext name
  by_cases same : name = self
  · subst same
    rw [Function.update_self, if_pos (List.mem_singleton_self name)]
  · rw [Function.update_of_ne same, if_neg fun listed => same (List.mem_singleton.mp listed)]

namespace Node

variable {setting : Setting ι σ} {fuel : Nat} {node : Node ι} {w final : World ι σ}
  {status : Status} {log : Log ι}

/-- The composites that were built with `with_stateful`. -/
def stateful : Node ι -> Bool
  | .composite _ (.selector withStateful) _ | .composite _ (.sequence withStateful) _ => withStateful
  | _ => false

/-- A tree without stateful composites. -/
def Plain (node : Node ι) : Prop :=
  forall sub, sub ∈ node.nodes -> sub.stateful = false

instance (node : Node ι) : Decidable node.Plain :=
  inferInstanceAs (Decidable (forall sub, sub ∈ node.nodes -> sub.stateful = false))

omit [DecidableEq ι] in
theorem plain_iff :
    node.Plain ↔ node.stateful = false ∧ forall child, child ∈ node.children -> child.Plain :=
  forall_nodes

omit [DecidableEq ι] in
theorem resets_of_plain {self : ι} {kind : CompositeKind} {children : List (Node ι)}
    (plain : (composite self kind children).Plain) (status : Status) : kind.resets status = true := by
  have own := plain _ (self_mem_nodes _)
  cases kind with
  | selector withStateful =>
      cases own
      rfl
  | sequence withStateful =>
      cases own
      rfl
  | _ => rfl

theorem resetAll_eq {children : List (Node ι)} (w : World ι σ)
    (resets : forall child, child ∈ children -> forall w : World ι σ,
      child.reset setting status w = some ((), w.erase child.ids)) :
    resetAll setting status children w = some ((), w.erase (children.flatMap ids)) := by
  induction children generalizing w with
  | nil => rfl
  | cons child children inductionHypothesis =>
      rw [resetAll, Program.bind_apply, resets child List.mem_cons_self, Option.bind_some,
        inductionHypothesis _ fun other listed => resets other (List.mem_cons_of_mem _ listed),
        World.erase_erase, List.flatMap_cons]

/-- `reset` of a tree without stateful composites erases the entries of the tree
and no other, whatever the status is. -/
theorem reset_eq (tidy : setting.Local) (plain : node.Plain) (status : Status) (w : World ι σ) :
    node.reset setting status w = some ((), w.erase node.ids) := by
  induction node using Node.induction generalizing w with
  | step node inductionHypothesis =>
      have below : forall child, child ∈ node.children -> forall w : World ι σ,
          child.reset setting status w = some ((), w.erase child.ids) :=
        fun child member => inductionHypothesis child member (forall_below plain member)
      cases node with
      | leaf self =>
          rw [reset, tidy.reset]
          exact Context.set_erase self w
      | composite self kind children =>
          have children := resetAll_eq (w.erase [self]) (show forall child, child ∈ children -> _ from below)
          rw [reset, if_pos (resets_of_plain plain status), Program.bind_apply, Context.set_erase,
            Option.bind_some, children, World.erase_erase, ids_eq]
          rfl
      | decorator self kind child =>
          rw [reset, Program.bind_apply, Context.set_erase, Option.bind_some,
            below child (List.mem_singleton_self child), World.erase_erase,
            ids_eq (.decorator self kind child), Node.children, List.flatMap_singleton]
          rfl

theorem resetUnlessRunning_eq (tidy : setting.Local) (plain : node.Plain) (status : Status)
    (w : World ι σ) :
    resetUnlessRunning setting node status w =
      some ((), if status = .running then w else w.erase node.ids) := by
  unfold resetUnlessRunning
  by_cases runs : status = .running
  · rw [if_neg (not_not_intro runs), if_pos runs]
    rfl
  · rw [if_pos runs, if_neg runs, reset_eq tidy plain]

/-- An update that does not return `Running` leaves no entry of its node or of a
descendant, and no update changes another entry; nor does the `reset` in it,
in whatever context it is called. -/
theorem update_cleans (tidy : setting.Local) (plain : node.Plain)
    (updated : node.update setting fuel w = some ((status, log), final))
    (ended : status ≠ .running) :
    (forall name, name ∈ node.ids -> final.cells name = none) ∧
      (forall name, name ∉ node.ids -> final.cells name = w.cells name) ∧
      forall before after : World ι σ, node.reset setting status before = some ((), after) ->
        forall name, name ∉ node.ids -> after.cells name = before.cells name := by
  refine ⟨?_, (update_confined tidy fuel node).frame updated, ?_⟩
  · intro name member
    have erased : forall middle : World ι σ,
        resetUnlessRunning setting node status middle = some ((), final) ->
        final.cells name = none := by
      intro middle reset
      rw [resetUnlessRunning_eq tidy plain, if_neg ended] at reset
      cases reset
      exact if_pos member
    cases update_updated updated with
    | leaf executed reset => exact erased _ reset
    | inner executed picks reset => exact erased _ reset
  · intro before after reset
    exact (reset_confined tidy status node).frame reset

theorem scripted_local (statuses : ι -> σ -> Status) : (Setting.scripted statuses).Local where
  execute := by
    intro self
    have closed : Compositional (fun {α} program => @Confined ι (Option Int) σ α {self} program) self :=
      compositional_confined rfl
    exact closed.bind (Context.set_closed closed 1) fun _ => closed.external _
  reset := fun _ _ => rfl

/-- A leaf that is left running below a sequence that is left at its second
child, when the `Failer` above them ends. -/
theorem update_cleans_failer :
    Exists fun log => Exists fun final : World Nat Unit =>
      (decorator 0 .failer (composite 1 (.sequence false) [leaf 2, leaf 3])).update
        (.scripted fun name _ => if name = 2 then .success else .running) 0 (World.new ()) =
          some ((.failure, log), final) ∧
      log.leaves = [(2, .success), (3, .running)] ∧
      forall name, name ∈ [0, 1, 2, 3] -> final.cells name = none := by
  have facts : ((decorator 0 .failer (composite 1 (.sequence false) [leaf 2, leaf 3])).update
      (.scripted fun name (_ : Unit) => if name = 2 then .success else .running) 0 (World.new ())).map
        (fun result => (result.1.1, result.1.2.leaves)) =
          some (.failure, [(2, .success), (3, .running)]) := by
    decide
  rcases Option.map_eq_some_iff.mp facts with ⟨⟨⟨status, log⟩, final⟩, updated, same⟩
  rcases Prod.mk.inj same with ⟨rfl, leaves⟩
  exact ⟨log, final, updated, leaves,
    (update_cleans (scripted_local _) (by decide) updated (by decide)).1⟩

end Node

end Brain
end ServerTech
