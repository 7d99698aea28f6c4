import ServerTech.ConcInAction.HazardPointers

namespace ServerTech
namespace ConcInAction
namespace LockFreeStack

open Transition

universe u

variable {T : Type u}

/-!
# Histories of the lock-free stack

Every `push` and every `pop` takes effect in one step: the exchange of the head
that succeeds, or the look at a head that is null.  The effects, in the order in
which they happen, are a run of a plain stack that ends with the nodes from the
head on.  What the calls of `pop` return to a thread is what their effects took
off, in the same order.
-/

/-! ## The plain stack -/

/-- What a call does to a stack. -/
inductive Effect (T : Type u) where
  | push (data : T)
  | pop (res : Option T)
  deriving DecidableEq, Repr

/-- The steps of a plain stack. -/
inductive Performs : List T -> Effect T -> List T -> Prop
  | push (data : T) (stack : List T) : Performs stack (.push data) (data :: stack)
  | pop (data : T) (stack : List T) : Performs (data :: stack) (.pop (some data)) stack
  | empty : Performs [] (.pop none) []

/-- The data that an effect puts in. -/
def Effect.pushed : Effect T -> Option T
  | .push data => some data
  | .pop _ => none

/-- The data that an effect takes out. -/
def Effect.popped : Effect T -> Option T
  | .push _ => none
  | .pop res => res

/-- A plain stack loses nothing and repeats nothing. -/
theorem Performs.balance {effects : List (Effect T)} {start stack : List T}
    (run : Run Performs start effects stack) :
    (start ++ effects.filterMap Effect.pushed).Perm (effects.filterMap Effect.popped ++ stack) := by
  induction run with
  | refl => rw [List.filterMap_nil, List.append_nil, List.filterMap_nil, List.nil_append]
  | snoc _ last inductionHypothesis =>
      rw [List.filterMap_append, List.filterMap_append, ← List.append_assoc]
      cases last with
      | push data stack =>
          have moved := inductionHypothesis.append_right [data]
          have same : (List.filterMap Effect.popped [Effect.push data] : List T) = [] := rfl
          rw [same, List.append_nil]
          apply moved.trans
          rw [List.append_assoc]
          exact (List.perm_append_singleton data _).append_left _
      | pop data stack =>
          have same : List.filterMap Effect.pushed [Effect.pop (some data)] = [] := rfl
          have one : List.filterMap Effect.popped [Effect.pop (some data)] = [data] := rfl
          rw [same, List.append_nil, one, List.append_assoc]
          exact inductionHypothesis
      | empty =>
          have same : (List.filterMap Effect.pushed [Effect.pop (none : Option T)] : List T) = [] := rfl
          have one : (List.filterMap Effect.popped [Effect.pop (none : Option T)] : List T) = [] := rfl
          rw [same, one, List.append_nil, List.append_nil]
          exact inductionHypothesis

/-! ## Observations -/

/-- What an observer notes: a call of a thread takes effect, or a call of `pop`
returns. -/
inductive Observation (T : Type u) where
  | effect (thread : Nat) (effect : Effect T)
  | result (thread : Nat) (res : Option T)
  deriving DecidableEq, Repr

/-- The data of a node in the memory. -/
def dataAt (heap : Nat -> Option (Node T)) (address : Nat) : Option T :=
  (heap address).bind Node.data

/-- What a step shows. -/
def shows (s : State T) (thread : Nat) : Pc T -> List (Observation T)
  | .pushCas newNode =>
      match s.heap newNode with
      | none => []
      | some node =>
          if s.head = node.next then
            node.data.toList.map fun data => .effect thread (.push data)
          else []
  | .validate none => if s.head = none then [.effect thread (.pop none)] else []
  | .popCas oldHead _ =>
      if s.head = some oldHead then [.effect thread (.pop (dataAt s.heap oldHead))] else []
  | .clear none => [.result thread none]
  | .scan oldHead res i =>
      if i < maxHazardPointers ∧ (s.hazards i).pointer = some oldHead then [.result thread res]
      else []
  | .delete _ res => [.result thread res]
  | _ => []

/-- What an action shows. -/
def observe (s : State T) (event : Nat × Action T) : List (Observation T) :=
  match event.2 with
  | .step => shows s event.1 (s.pc event.1)
  | _ => []

/-- The effects among some observations. -/
def effects (observations : List (Observation T)) : List (Effect T) :=
  observations.filterMap fun observation =>
    match observation with
    | .effect _ effect => some effect
    | .result _ _ => none

/-- What the effects of a thread's calls of `pop` have taken. -/
def popped (thread : Nat) (observations : List (Observation T)) : List (Option T) :=
  observations.filterMap fun observation =>
    match observation with
    | .effect other (.pop res) => if other = thread then some res else none
    | _ => none

/-- What a thread's calls of `pop` have returned. -/
def returned (thread : Nat) (observations : List (Observation T)) : List (Option T) :=
  observations.filterMap fun observation =>
    match observation with
    | .result other res => if other = thread then some res else none
    | _ => none

theorem effects_append (first second : List (Observation T)) :
    effects (first ++ second) = effects first ++ effects second :=
  List.filterMap_append

theorem popped_append (thread : Nat) (first second : List (Observation T)) :
    popped thread (first ++ second) = popped thread first ++ popped thread second :=
  List.filterMap_append

theorem returned_append (thread : Nat) (first second : List (Observation T)) :
    returned thread (first ++ second) = returned thread first ++ returned thread second :=
  List.filterMap_append

theorem popped_own (thread : Nat) (res : Option T) :
    popped thread [.effect thread (.pop res)] = [res] := by
  rw [popped, List.filterMap_cons]
  simp only [if_true]
  rfl

theorem popped_foreign {thread other : Nat} (different : other ≠ thread) (effect : Effect T) :
    popped other [.effect thread effect] = [] := by
  cases effect with
  | push data => rfl
  | pop res =>
      rw [popped, List.filterMap_cons]
      simp only [if_neg (Ne.symm different)]
      rfl

theorem returned_own (thread : Nat) (res : Option T) :
    returned thread [.result thread res] = [res] := by
  rw [returned, List.filterMap_cons]
  simp only [if_true]
  rfl

theorem returned_foreign {thread other : Nat} (different : other ≠ thread) (res : Option T) :
    returned other [.result thread res] = [] := by
  rw [returned, List.filterMap_cons]
  simp only [if_neg (Ne.symm different)]
  rfl

/-- What a call of `pop` has taken and not returned yet. -/
def pending (heap : Nat -> Option (Node T)) : Pc T -> List (Option T)
  | .clear none => [none]
  | .clear (some oldHead) => [dataAt heap oldHead]
  | .take oldHead => [dataAt heap oldHead]
  | .scan _ res _ => [res]
  | .delete _ res => [res]
  | _ => []

/-- The data of the nodes of the stack. -/
def contents (heap : Nat -> Option (Node T)) (nodes : List Nat) : List T :=
  nodes.filterMap (dataAt heap)

/-- What is pending depends on the node that still has its data only. -/
theorem pending_congr {heap other : Nat -> Option (Node T)} {pc : Pc T}
    (same : forall node, pc.full = some node -> other node = heap node) :
    pending other pc = pending heap pc := by
  cases pc with
  | clear oldHead =>
      cases oldHead with
      | none => rfl
      | some node => rw [pending, pending, dataAt, dataAt, same node rfl]
  | take oldHead => rw [pending, pending, dataAt, dataAt, same oldHead rfl]
  | _ => rfl

theorem contents_congr {heap other : Nat -> Option (Node T)} {nodes : List Nat}
    (same : forall node, node ∈ nodes -> other node = heap node) :
    contents other nodes = contents heap nodes := by
  apply List.filterMap_congr
  intro node member
  rw [dataAt, dataAt, same node member]

/-! ## One step -/

/-- What a step keeps, with what it shows. -/
structure Step (s after : State T) (nodes later : List Nat) (thread : Nat)
    (shown : List (Observation T)) : Prop where
  safe : Safe after later
  stack : Run Performs (contents s.heap nodes) (effects shown) (contents after.heap later)
  others : forall other, other ≠ thread ->
    pending after.heap (after.pc other) = pending s.heap (s.pc other) ∧
      popped other shown = [] ∧ returned other shown = []
  own : pending s.heap (s.pc thread) ++ popped thread shown =
    returned thread shown ++ pending after.heap (after.pc thread)

variable {s after : State T} {nodes : List Nat} {thread : Nat}

/-- A step that shows nothing and writes nothing that matters to the stack. -/
theorem Step.silent {pc : Pc T} (safe : Safe after nodes)
    (moved : after.pc = Function.update s.pc thread pc)
    (stack : forall node, node ∈ nodes -> after.heap node = s.heap node)
    (others : forall other, other ≠ thread -> forall node, (s.pc other).full = some node ->
      after.heap node = s.heap node)
    (own : pending s.heap (s.pc thread) = pending after.heap pc) :
    Step s after nodes nodes thread [] := by
  refine ⟨safe, ?_, ?_, ?_⟩
  · rw [contents_congr stack]
    exact .refl _
  · intro other different
    rw [moved, Function.update_of_ne different]
    exact ⟨pending_congr (others other different), rfl, rfl⟩
  · rw [moved, Function.update_self]
    exact (List.append_nil _).trans own

theorem Step.goto {pc : Pc T} (safe : Safe (s.goto thread pc) nodes)
    (own : pending s.heap (s.pc thread) = pending s.heap pc) :
    Step s (s.goto thread pc) nodes nodes thread [] :=
  .silent safe rfl (fun _ _ => rfl) (fun _ _ _ _ => rfl) own

/-- A call of `pop` returns, and the memory that it writes is its own. -/
theorem Step.result {pc : Pc T} {res : Option T} (safe : Safe after nodes)
    (moved : after.pc = Function.update s.pc thread pc)
    (stack : forall node, node ∈ nodes -> after.heap node = s.heap node)
    (others : forall other, other ≠ thread -> forall node, (s.pc other).full = some node ->
      after.heap node = s.heap node)
    (own : pending s.heap (s.pc thread) = [res]) (done : pending after.heap pc = []) :
    Step s after nodes nodes thread [.result thread res] := by
  refine ⟨safe, ?_, ?_, ?_⟩
  · rw [contents_congr stack]
    exact .refl _
  · intro other different
    rw [moved, Function.update_of_ne different]
    exact ⟨pending_congr (others other different), rfl, returned_foreign different res⟩
  · rw [moved, Function.update_self, own, done, returned_own]
    rfl

/-- A call of `pop` takes effect, and writes no node. -/
theorem Step.effective {later : List Nat} {pc : Pc T} {res : Option T} (safe : Safe after later)
    (moved : after.pc = Function.update s.pc thread pc) (heap : after.heap = s.heap)
    (stack : Performs (contents s.heap nodes) (.pop res) (contents s.heap later))
    (own : pending s.heap (s.pc thread) = []) (holds : pending s.heap pc = [res]) :
    Step s after nodes later thread [.effect thread (.pop res)] := by
  refine ⟨safe, ?_, ?_, ?_⟩
  · rw [heap]
    exact .snoc (.refl _) stack
  · intro other different
    rw [moved, heap, Function.update_of_ne different]
    exact ⟨rfl, popped_foreign different _, rfl⟩
  · rw [moved, heap, Function.update_self, own, holds, popped_own]
    rfl

/-! ## Writing a node -/

/-- A node that a thread owns is none of the stack, and no other thread has data
there. -/
theorem Safe.writes (safe : Safe s nodes) {address : Nat}
    (owned : (s.pc thread).owned = some address) (content : Option (Node T)) :
    (forall node, node ∈ nodes -> (s.write address content).heap node = s.heap node) ∧
      forall other, other ≠ thread -> forall node, (s.pc other).full = some node ->
        (s.write address content).heap node = s.heap node := by
  constructor
  · intro node member
    apply Function.update_of_ne
    rintro rfl
    exact ((safe.fine thread).own node owned).2 member
  · intro other different node full
    apply Function.update_of_ne
    rintro rfl
    exact (safe.apart thread other (Ne.symm different)).own node owned (Pc.owned_of_full full)

/-- What no other thread has, nobody has when the thread has gone home. -/
theorem goto_idle_ne {f : Pc T -> Option Nat} {node : Nat} (none_ : f .idle = none)
    (others : forall other, other ≠ thread -> f (s.pc other) ≠ some node) (other : Nat) :
    f ((s.goto thread .idle).pc other) ≠ some node := by
  change f (Function.update s.pc thread .idle other) ≠ _
  by_cases same : other = thread
  · subst same
    rw [Function.update_self, none_]
    exact fun absent => nomatch absent
  · rw [Function.update_of_ne same]
    exact others other same

/-! ## The calls -/

theorem Step.linkNew (safe : Safe s nodes) {newNode : Nat}
    (owned : (s.pc thread).owned = some newNode) (full : (s.pc thread).full = some newNode)
    (passed : (s.pc thread).passed = maxHazardPointers)
    (nothing : pending s.heap (s.pc thread) = []) :
    Step s (LockFreeStack.linkNew s thread newNode) nodes nodes thread [] := by
  have fine := safe.fine thread
  rcases fine.full newNode full with ⟨data, next, found⟩
  have written : Safe (s.write newNode (some ⟨some data, s.head⟩)) nodes := by
    refine safe.write (fine.own newNode owned).2 (fun _ _ => Option.some_ne_none _)
      (fun _ _ => ⟨data, s.head, rfl⟩) ?_
    exact fun other guarded => absurd guarded (safe.unguarded owned passed other)
  have calm : (Pc.pushCas newNode : Pc T).Calm :=
    ⟨rfl, rfl, fun popping => popping, fun _ exiting => nomatch exiting⟩
  have same : LockFreeStack.linkNew s thread newNode =
      (s.write newNode (some ⟨some data, s.head⟩)).goto thread (.pushCas newNode) := by
    rw [LockFreeStack.linkNew, found]
  rw [same]
  have writes := safe.writes owned (some ⟨some data, s.head⟩)
  refine .silent ?_ rfl writes.1 writes.2 nothing
  · apply written.keep ((written.fine thread).calm calm _ _) _ _ (Nat.le_of_eq passed.symm)
    · rintro node rfl_
      cases rfl_
      exact owned
    · rintro node rfl_
      cases rfl_
      exact full
    · rintro node rfl_
      cases rfl_
      exact owned
    · exact fun _ none_ => nomatch none_

theorem Step.pushExchange (safe : Safe s nodes) {newNode : Nat}
    (here : s.pc thread = .pushCas newNode) :
    Exists fun later => Step s (LockFreeStack.pushExchange s thread newNode) nodes later thread
      (shows s thread (.pushCas newNode)) := by
  have owned : (s.pc thread).owned = some newNode := congrArg Pc.owned here
  have full : (s.pc thread).full = some newNode := congrArg Pc.full here
  have nothing : pending s.heap (s.pc thread) = [] := congrArg (pending s.heap) here
  have fine := safe.fine thread
  rcases fine.full newNode full with ⟨data, next, found⟩
  rw [LockFreeStack.pushExchange, shows, found]
  by_cases current : s.head = next
  · subst current
    simp only [if_true]
    have free : forall other, ((s.goto thread .idle).pc other).owned ≠ some newNode :=
      goto_idle_ne rfl fun other different =>
        (safe.apart thread other (Ne.symm different)).own newNode owned
    have pushed : contents s.heap (newNode :: nodes) = data :: contents s.heap nodes := by
      rw [contents, List.filterMap_cons, dataAt, found]
      rfl
    refine ⟨newNode :: nodes,
      (safe.quiet Pc.idle_quiet).publish (fine.own newNode owned).2 free found, ?_, ?_, ?_⟩
    · change Run Performs _ _ (contents s.heap (newNode :: nodes))
      rw [pushed]
      exact .snoc (.refl _) (.push data _)
    · intro other different
      change pending s.heap (Function.update s.pc thread .idle other) = _ ∧ _
      rw [Function.update_of_ne different]
      exact ⟨rfl, rfl, rfl⟩
    · rw [nothing]
      change popped thread _ = returned thread _ ++
        pending s.heap (Function.update s.pc thread .idle thread)
      rw [Function.update_self]
      rfl
  · simp only [if_neg current]
    have passed : (s.pc thread).passed = maxHazardPointers := congrArg Pc.passed here
    exact ⟨nodes, .linkNew safe owned full passed nothing⟩

theorem pending_at {pc later : Pc T} (here : s.pc thread = pc)
    (same : pending s.heap pc = pending s.heap later) :
    pending s.heap (s.pc thread) = pending s.heap later := by
  rw [here]
  exact same

theorem Counting.roaming {heap : Nat -> Option (Node T)} {hazards : Nat -> Hazard}
    {slot : Nat -> Option Nat} {pc : Pc T} (owned : pc.owned = none) (guarded : pc.guarded = none)
    (stored : forall pointer, pc.stored = some pointer ->
      Exists fun i => slot thread = some i ∧ (hazards i).pointer = pointer)
    (hasSlot : pc.popping -> slot thread ≠ none)
    (exiting : forall i, pc = .exiting i -> slot thread = some i) :
    Counting heap hazards slot nodes thread pc where
  own := by
    intro node own
    rw [owned] at own
    cases own
  full := by
    intro node full
    have own := Pc.owned_of_full full
    rw [owned] at own
    cases own
  guard := by
    intro node guard
    rw [guarded] at guard
    cases guard
  link := by
    rintro node next rfl
    cases guarded
  stored := stored
  hasSlot := hasSlot
  exiting := exiting

/-- A place where a thread counts on its slot only. -/
theorem Safe.counting_popping (safe : Safe s nodes) {pc : Pc T} (here : (s.pc thread).popping)
    (owned : pc.owned = none) (guarded : pc.guarded = none) (stored : pc.stored = none)
    (exiting : forall i, pc ≠ .exiting i) : Fine s nodes thread pc := by
  refine .roaming owned guarded ?_ (fun _ => (safe.fine thread).hasSlot here)
    (fun i same => absurd same (exiting i))
  intro pointer unused
  rw [stored] at unused
  cases unused

/-- A thread looks at the head and protects what it finds. -/
theorem Step.protectHead (safe : Safe s nodes) (here : (s.pc thread).popping)
    (nothing : pending s.heap (s.pc thread) = []) :
    Step s (s.goto thread (.protect s.head)) nodes nodes thread [] :=
  .goto (safe.roam (safe.counting_popping here rfl rfl rfl fun _ same => nomatch same) rfl rfl) nothing

/-- A thread stores its hazard pointer where it does not count on the old one. -/
theorem Step.storeHazard (safe : Safe s nodes) {pc : Pc T} (pointer : Option Nat)
    (here : (s.pc thread).popping) (unused : (s.pc thread).stored = none)
    (own : pending s.heap (s.pc thread) = pending s.heap pc)
    (next : forall i, s.slot thread = some i -> Safe (s.store i pointer) nodes ->
      ((s.store i pointer).hazards i).pointer = pointer ->
      Safe ((s.store i pointer).goto thread pc) nodes) :
    Step s (LockFreeStack.storeHazard s thread pointer pc) nodes nodes thread [] := by
  cases slot : s.slot thread with
  | none => exact absurd slot ((safe.fine thread).hasSlot here)
  | some i =>
      rw [LockFreeStack.storeHazard, slot]
      have stored : ((s.store i pointer).hazards i).pointer = pointer := by
        change (Function.update s.hazards i _ i).pointer = pointer
        rw [Function.update_self]
      exact .silent (next i slot (safe.store slot unused pointer) stored) rfl (fun _ _ => rfl)
        (fun _ _ _ _ => rfl) own

/-- The head is still what the thread protects. -/
theorem Step.validate (safe : Safe s nodes) {temp : Option Nat}
    (here : s.pc thread = .validate temp) {after : State T}
    (taken : advance s thread (.validate temp) = some after) :
    Step s after nodes nodes thread (shows s thread (.validate temp)) := by
  have fine := safe.fine thread
  have popping : (s.pc thread).popping := by
    rw [here]
    trivial
  have nothing : pending s.heap (s.pc thread) = [] := congrArg (pending s.heap) here
  have moved : (if s.head = temp then leaveLoop s thread temp else s.goto thread (.protect s.head)) =
      after := Option.some.inj taken
  by_cases same : s.head = temp
  · rw [if_pos same] at moved
    subst moved
    cases temp with
    | none =>
        have safe_ : Safe (s.goto thread (.clear none)) nodes :=
          safe.roam (safe.counting_popping popping rfl rfl rfl fun _ equal => nomatch equal) rfl rfl
        have empty : nodes = [] := by
          have chain := safe.chain
          rw [same] at chain
          exact chain.of_none
        have shown : shows s thread (.validate none) = [.effect thread (.pop none)] := if_pos same
        rw [shown]
        refine .effective safe_ rfl rfl ?_ nothing rfl
        rw [empty]
        exact .empty
    | some oldHead =>
        have member := safe.head_mem same
        have safe_ : Safe (s.goto thread (.readNext oldHead)) nodes := by
          refine safe.goto ?_ ?_ (fun other _ => .of_none_right rfl)
          · refine ⟨fun _ none_ => (nomatch none_), fun _ none_ => (nomatch none_), ?_,
              fun _ _ none_ => (nomatch none_), ?_, fun _ => fine.hasSlot popping,
              fun _ none_ => (nomatch none_)⟩
            · rintro node guarded
              cases guarded
              rcases safe.data oldHead member with ⟨_, _, found⟩
              rw [found]
              exact Option.some_ne_none _
            · rintro pointer stored
              cases stored
              exact fine.stored _ (congrArg Pc.stored here)
          · intro other _
            refine ⟨fun _ none_ => (nomatch none_), ?_⟩
            rintro node i guarded owned
            cases guarded
            exact absurd owned (safe.unowned member other)
        exact .goto safe_ nothing
  · rw [if_neg same] at moved
    subst moved
    have shown : shows s thread (.validate temp) = [] := by
      cases temp with
      | none => exact if_neg same
      | some oldHead => rfl
    rw [shown]
    exact .protectHead safe popping nothing

theorem Step.popCas (safe : Safe s nodes) {oldHead : Nat} {next : Option Nat}
    (here : s.pc thread = .popCas oldHead next) {after : State T}
    (taken : advance s thread (.popCas oldHead next) = some after) :
    Exists fun later => Step s after nodes later thread (shows s thread (.popCas oldHead next)) := by
  have fine := safe.fine thread
  have popping : (s.pc thread).popping := by
    rw [here]
    trivial
  have nothing : pending s.heap (s.pc thread) = [] := congrArg (pending s.heap) here
  rw [advance] at taken
  rw [shows]
  by_cases current : s.head = some oldHead
  · rw [if_pos current] at taken
    rw [if_pos current]
    cases taken
    have linked := fine.link oldHead next here
    have chain := safe.chain
    rw [current] at chain
    rcases chain.uncons with ⟨_, others, rfl, _, _⟩
    have unlinked := (safe.unlink linked).2
    rcases safe.data oldHead List.mem_cons_self with ⟨data, _, found⟩
    have value : dataAt s.heap oldHead = some data := by
      rw [dataAt, found]
      rfl
    have safe_ : Safe ({ s with head := next }.goto thread (.clear (some oldHead))) others := by
      refine unlinked.goto ?_ ?_ ?_
      · refine ⟨?_, ?_, fun _ none_ => (nomatch none_), fun _ _ none_ => (nomatch none_),
          fun _ none_ => (nomatch none_), fun _ => fine.hasSlot popping, fun _ none_ => (nomatch none_)⟩
        · rintro node owned
          cases owned
          refine ⟨?_, (List.nodup_cons.mp safe.nodup).1⟩
          rw [found]
          exact Option.some_ne_none _
        · rintro node full
          cases full
          exact ⟨_, _, found⟩
      · intro other _
        refine ⟨?_, fun _ _ none_ => (nomatch none_)⟩
        rintro node owned
        cases owned
        exact safe.unowned List.mem_cons_self other
      · intro other _
        refine ⟨?_, fun _ i _ _ _ => Nat.zero_le i⟩
        rintro node owned mine
        cases mine
        exact safe.unowned List.mem_cons_self other owned
    refine ⟨others, .effective safe_ rfl rfl ?_ nothing rfl⟩
    rw [value, contents, List.filterMap_cons, value]
    exact .pop data _
  · rw [if_neg current] at taken
    rw [if_neg current]
    cases taken
    exact ⟨nodes, .protectHead safe popping nothing⟩

theorem Step.readNext (safe : Safe s nodes) {oldHead : Nat} (here : s.pc thread = .readNext oldHead)
    {after : State T} (taken : advance s thread (.readNext oldHead) = some after) :
    Step s after nodes nodes thread [] := by
  have fine := safe.fine thread
  have guarded : (s.pc thread).guarded = some oldHead := congrArg Pc.guarded here
  have popping : (s.pc thread).popping := by
    rw [here]
    trivial
  have nothing : pending s.heap (s.pc thread) = [] := congrArg (pending s.heap) here
  cases found : s.heap oldHead with
  | none => exact absurd found (fine.guard oldHead guarded)
  | some node =>
      rw [advance, found] at taken
      cases taken
      have safe_ : Safe (s.goto thread (.popCas oldHead node.next)) nodes := by
        refine safe.keep ?_ (fun _ none_ => (nomatch none_)) ?_ ?_
        · refine ⟨fun _ none_ => (nomatch none_), fun _ none_ => (nomatch none_), ?_, ?_, ?_,
            fun _ => fine.hasSlot popping, fun _ none_ => (nomatch none_)⟩
          · rintro node guarded_
            cases guarded_
            exact fine.guard oldHead guarded
          · rintro first next same
            cases same
            rw [link, found]
            rfl
          · rintro pointer stored
            cases stored
            exact fine.stored _ (congrArg Pc.stored here)
        · rintro node guarded_
          cases guarded_
          exact guarded
        · exact Nat.le_of_eq (congrArg Pc.passed here).symm
      exact .goto safe_ nothing

/-- `hp.store( nullptr )` at the end of the loops. -/
theorem Step.clear (safe : Safe s nodes) {oldHead : Nat} (here : s.pc thread = .clear (some oldHead)) :
    Step s (LockFreeStack.storeHazard s thread none (.take oldHead)) nodes nodes thread [] := by
  have popping : (s.pc thread).popping := by
    rw [here]
    trivial
  have calm : (Pc.take oldHead : Pc T).Calm :=
    ⟨rfl, rfl, fun popping => popping, fun _ exiting => nomatch exiting⟩
  have holds : pending s.heap (s.pc thread) = [dataAt s.heap oldHead] :=
    congrArg (pending s.heap) here
  refine .storeHazard safe none popping (congrArg Pc.stored here) holds ?_
  intro i slot stored _
  refine stored.keep ((stored.fine thread).calm calm ?_ ?_) ?_ (fun _ none_ => (nomatch none_)) ?_
  · rintro node owned
    cases owned
    exact congrArg Pc.owned here
  · rintro node full
    cases full
    exact congrArg Pc.full here
  · rintro node owned
    cases owned
    exact congrArg Pc.owned here
  · exact Nat.zero_le _

theorem Step.clearNone (safe : Safe s nodes) (here : s.pc thread = .clear none) :
    Step s (LockFreeStack.storeHazard s thread none .idle) nodes nodes thread
      [.result thread none] := by
  have popping : (s.pc thread).popping := by
    rw [here]
    trivial
  cases slot : s.slot thread with
  | none => exact absurd slot ((safe.fine thread).hasSlot popping)
  | some i =>
      have stored := safe.store slot (congrArg Pc.stored here) none
      rw [LockFreeStack.storeHazard, slot]
      exact .result (stored.quiet Pc.idle_quiet) rfl (fun _ _ => rfl) (fun _ _ _ _ => rfl) (congrArg (pending s.heap) here) rfl

/-- The data leave the node. -/
theorem Step.take (safe : Safe s nodes) {oldHead : Nat} (here : s.pc thread = .take oldHead)
    {after : State T} (taken : advance s thread (.take oldHead) = some after) :
    Step s after nodes nodes thread [] := by
  have fine := safe.fine thread
  have owned : (s.pc thread).owned = some oldHead := congrArg Pc.owned here
  rcases fine.full oldHead (congrArg Pc.full here) with ⟨data, next, found⟩
  rw [advance, found] at taken
  cases taken
  have calm : (Pc.scan oldHead (some data) 0 : Pc T).Calm :=
    ⟨rfl, rfl, fun popping => popping, fun _ exiting => nomatch exiting⟩
  have apart : forall other, other ≠ thread -> forall node, (s.pc other).full = some node ->
      node ≠ oldHead := by
    rintro other different node full rfl
    exact (safe.apart thread other (Ne.symm different)).own node owned (Pc.owned_of_full full)
  have moved : Safe (s.goto thread (.scan oldHead (some data) 0)) nodes := by
    refine safe.keep (fine.calm calm ?_ (fun _ none_ => (nomatch none_))) ?_
      (fun _ none_ => (nomatch none_)) (Nat.zero_le _)
    · rintro node same
      cases same
      exact owned
    · rintro node same
      cases same
      exact owned
  have safe_ : Safe ((s.goto thread (.scan oldHead (some data) 0)).write oldHead
      (some ⟨none, next⟩)) nodes := by
    refine moved.write (fine.own oldHead owned).2 (fun _ _ => Option.some_ne_none _) ?_ ?_
    · intro other full
      change (Function.update s.pc thread _ other).full = _ at full
      by_cases same : other = thread
      · subst same
        rw [Function.update_self] at full
        cases full
      · rw [Function.update_of_ne same] at full
        exact absurd rfl (apart other same oldHead full)
    · intro _ _
      change some next = link s.heap oldHead
      rw [link, found]
      rfl
  have writes := safe.writes owned (some ⟨none, next⟩)
  refine .silent safe_ rfl writes.1 writes.2 ?_
  rw [here, pending, dataAt, found]
  rfl

/-- A thread that guards a node has its slot where the scan for the node still
comes by. -/
theorem Safe.ahead (safe : Safe s nodes) {oldHead : Nat}
    (owned : (s.pc thread).owned = some oldHead) {other : Nat} (different : other ≠ thread) {j : Nat}
    (guarded : (s.pc other).guarded = some oldHead) (slot : s.slot other = some j) :
    (s.pc thread).passed ≤ j ∧ (s.hazards j).pointer = some oldHead := by
  rcases (safe.fine other).stored _ (Pc.stored_of_guarded guarded) with ⟨k, mine, equal⟩
  cases mine.symm.trans slot
  exact ⟨(safe.apart other thread different).scan oldHead j guarded owned slot, equal⟩

/-- A thread goes on with a node that it owns and whose data it has taken out. -/
theorem Safe.carry (safe : Safe s nodes) {oldHead : Nat}
    (owned : (s.pc thread).owned = some oldHead) {pc : Pc T} (calm : pc.Calm)
    (mine : pc.owned = some oldHead) (empty : pc.full = none)
    (clear : forall other, other ≠ thread -> forall j, (s.pc other).guarded = some oldHead ->
      s.slot other = some j -> pc.passed ≤ j) : Safe (s.goto thread pc) nodes := by
  have own : forall node, pc.owned = some node -> (s.pc thread).owned = some node := by
    intro node same
    rw [mine] at same
    cases same
    exact owned
  refine safe.goto ((safe.fine thread).calm calm own ?_) ?_ ?_
  · intro node full
    rw [empty] at full
    cases full
  · intro other different
    refine (safe.apart thread other (Ne.symm different)).left own ?_
    intro node guarded
    rw [calm.guarded] at guarded
    cases guarded
  · intro other different
    have apart := safe.apart other thread different
    refine ⟨fun node theirs same => apart.own node theirs (own node same), ?_⟩
    intro node j guarded same slot
    rw [mine] at same
    cases same
    exact clear other different j guarded slot

/-- One turn of the scan. -/
theorem Step.scan (safe : Safe s nodes) {oldHead i : Nat} {res : Option T}
    (here : s.pc thread = .scan oldHead res i) {after : State T}
    (taken : advance s thread (.scan oldHead res i) = some after) :
    Step s after nodes nodes thread (shows s thread (.scan oldHead res i)) := by
  have owned : (s.pc thread).owned = some oldHead := congrArg Pc.owned here
  have passed : (s.pc thread).passed = i := congrArg Pc.passed here
  have holds : pending s.heap (s.pc thread) = [res] := congrArg (pending s.heap) here
  rw [advance] at taken
  by_cases done : maxHazardPointers ≤ i
  · rw [if_pos done] at taken
    cases taken
    have shown : shows s thread (.scan oldHead res i) = [] :=
      if_neg fun both => absurd done (Nat.not_le.mpr both.1)
    rw [shown]
    refine .goto (safe.carry owned ⟨rfl, rfl, fun popping => popping, fun _ same => nomatch same⟩
      rfl rfl ?_) holds
    intro other different j guarded slot
    have least := (safe.ahead owned different guarded slot).1
    rw [passed] at least
    exact Nat.le_trans done least
  · rw [if_neg done] at taken
    by_cases found : (s.hazards i).pointer = some oldHead
    · rw [if_pos found] at taken
      cases taken
      have shown : shows s thread (.scan oldHead res i) = [.result thread res] :=
        if_pos ⟨Nat.lt_of_not_le done, found⟩
      rw [shown]
      exact .result (safe.quiet Pc.idle_quiet) rfl (fun _ _ => rfl) (fun _ _ _ _ => rfl)
        holds rfl
    · rw [if_neg found] at taken
      cases taken
      have shown : shows s thread (.scan oldHead res i) = [] := if_neg fun both => found both.2
      rw [shown]
      refine .goto (safe.carry owned ⟨rfl, rfl, fun popping => popping, fun _ same => nomatch same⟩
        rfl rfl ?_) holds
      intro other different j guarded slot
      rcases safe.ahead owned different guarded slot with ⟨least, pointer⟩
      rw [passed] at least
      have apart : i ≠ j := by
        rintro rfl
        exact found pointer
      exact Nat.lt_of_le_of_ne least apart

theorem Step.delete (safe : Safe s nodes) {oldHead : Nat} {res : Option T}
    (here : s.pc thread = .delete oldHead res) {after : State T}
    (taken : advance s thread (.delete oldHead res) = some after) :
    Step s after nodes nodes thread [.result thread res] := by
  have fine := safe.fine thread
  have owned : (s.pc thread).owned = some oldHead := congrArg Pc.owned here
  have passed : (s.pc thread).passed = maxHazardPointers := congrArg Pc.passed here
  cases found : s.heap oldHead with
  | none => exact absurd found (fine.own oldHead owned).1
  | some node =>
      rw [advance, found] at taken
      cases taken
      have theirs : forall other, ((s.goto thread .idle).pc other).owned ≠ some oldHead :=
        goto_idle_ne rfl fun other different =>
          (safe.apart thread other (Ne.symm different)).own oldHead owned
      have guards : forall other, ((s.goto thread .idle).pc other).guarded ≠ some oldHead :=
        goto_idle_ne rfl fun other _ => safe.unguarded owned passed other
      have safe_ : Safe ((s.goto thread .idle).write oldHead none) nodes :=
        (safe.quiet Pc.idle_quiet).write (fine.own oldHead owned).2
          (fun other same => absurd same (theirs other))
          (fun other same => absurd (Pc.owned_of_full same) (theirs other))
          (fun other same => absurd same (guards other))
      have writes := safe.writes owned none
      exact .result safe_ rfl writes.1 writes.2 (congrArg (pending s.heap) here) rfl

/-- One turn of the loop of `hp_owner`. -/
theorem Step.acquire (safe : Safe s nodes) {i : Nat} (here : s.pc thread = .acquire i)
    {after : State T} (taken : advance s thread (.acquire i) = some after) :
    Step s after nodes nodes thread [] := by
  have quiet (j : Nat) : (Pc.acquire j : Pc T).Quiet :=
    ⟨rfl, rfl, rfl, fun popping => popping, fun _ exiting => nomatch exiting⟩
  have nothing : pending s.heap (s.pc thread) = [] := congrArg (pending s.heap) here
  rw [advance] at taken
  by_cases done : maxHazardPointers ≤ i
  · rw [if_pos done] at taken
    cases taken
    exact .goto (safe.quiet Pc.idle_quiet) nothing
  · rw [if_neg done] at taken
    by_cases free : (s.hazards i).id = none
    · rw [if_pos free] at taken
      cases taken
      have mine : (s.pc thread).Quiet := by
        rw [here]
        exact quiet i
      have entered := safe.enter (Nat.lt_of_not_le done) free mine
      have slot : (s.enter thread i).slot thread ≠ none := by
        change Function.update s.slot thread (some i) thread ≠ none
        rw [Function.update_self]
        exact Option.some_ne_none _
      have fine : Fine (s.enter thread i) nodes thread .popLoad :=
        .roaming rfl rfl (fun _ none_ => nomatch none_) (fun _ => slot)
          (fun _ none_ => nomatch none_)
      exact .silent (entered.roam fine rfl rfl) rfl (fun _ _ => rfl) (fun _ _ _ _ => rfl) nothing
    · rw [if_neg free] at taken
      cases taken
      exact .goto (safe.quiet (quiet (i + 1))) nothing

theorem Step.exiting (safe : Safe s nodes) {i : Nat} (here : s.pc thread = .exiting i) :
    Step s ((s.goto thread .idle).leave thread i) nodes nodes thread [] := by
  have gone : ((s.goto thread .idle).pc thread).Quiet := by
    change (Function.update s.pc thread .idle thread).Quiet
    rw [Function.update_self]
    exact Pc.idle_quiet
  exact .silent ((safe.quiet Pc.idle_quiet).leave ((safe.fine thread).exiting i here) gone) rfl
    (fun _ _ => rfl) (fun _ _ _ _ => rfl) (pending_at here rfl)

theorem Step.allocate (safe : Safe s nodes) {data : T} {address : Nat}
    (here : s.pc thread = .pushNew data) (free : s.heap address = none) :
    Step s ((s.write address (some ⟨some data, none⟩)).goto thread (.pushLoad address)) nodes nodes
      thread [] := by
  have unowned : forall other, (s.pc other).owned ≠ some address :=
    fun other owned => ((safe.fine other).own address owned).1 free
  have unguarded : forall other, (s.pc other).guarded ≠ some address :=
    fun other guarded => (safe.fine other).guard address guarded free
  have outside : address ∉ nodes := by
    intro member
    rcases safe.data address member with ⟨_, _, found⟩
    rw [free] at found
    cases found
  have written : Safe (s.write address (some ⟨some data, none⟩)) nodes :=
    safe.write outside (fun other owned => absurd owned (unowned other))
      (fun other full => absurd (Pc.owned_of_full full) (unowned other))
      (fun other guarded => absurd guarded (unguarded other))
  have stored : (s.write address (some ⟨some data, none⟩)).heap address = some ⟨some data, none⟩ :=
    Function.update_self _ _ _
  have moved : Safe ((s.write address (some ⟨some data, none⟩)).goto thread (.pushLoad address))
      nodes := by
    refine written.goto ?_ ?_ ?_
    · refine ⟨?_, ?_, fun _ none_ => (nomatch none_), fun _ _ none_ => (nomatch none_),
        fun _ none_ => (nomatch none_), fun popping => popping.elim, fun _ none_ => (nomatch none_)⟩
      · rintro node owned
        cases owned
        rw [stored]
        exact ⟨Option.some_ne_none _, outside⟩
      · rintro node full
        cases full
        exact ⟨data, none, stored⟩
    · intro other _
      refine ⟨?_, fun _ _ none_ => (nomatch none_)⟩
      rintro node owned
      cases owned
      exact unowned other
    · intro other _
      constructor
      · rintro node owned mine
        cases mine
        exact unowned other owned
      · rintro node j guarded mine
        cases mine
        exact absurd guarded (unguarded other)
  refine .silent moved rfl ?_ ?_ (pending_at here rfl)
  · intro node member
    apply Function.update_of_ne
    rintro rfl
    exact outside member
  · intro other _ node full
    apply Function.update_of_ne
    rintro rfl
    exact unowned other (Pc.owned_of_full full)

/-! ## Any step -/

theorem Step.advance (safe : Safe s nodes)
    (taken : LockFreeStack.advance s thread (s.pc thread) = some after) :
    Exists fun later => Step s after nodes later thread (shows s thread (s.pc thread)) := by
  cases here : s.pc thread with
  | idle =>
      rw [here] at taken
      cases taken
  | pushNew data =>
      rw [here] at taken
      cases taken
  | pushLoad newNode =>
      rw [here] at taken
      cases taken
      exact ⟨nodes, .linkNew safe (congrArg Pc.owned here) (congrArg Pc.full here)
        (congrArg Pc.passed here) (pending_at here rfl)⟩
  | pushCas newNode =>
      rw [here] at taken
      cases taken
      exact Step.pushExchange safe here
  | acquire i =>
      rw [here] at taken
      exact ⟨nodes, .acquire safe here taken⟩
  | popLoad =>
      rw [here] at taken
      cases taken
      have popping : (s.pc thread).popping := by
        rw [here]
        trivial
      exact ⟨nodes, .protectHead safe popping (pending_at here rfl)⟩
  | protect oldHead =>
      rw [here] at taken
      cases taken
      have popping : (s.pc thread).popping := by
        rw [here]
        trivial
      refine ⟨nodes, .storeHazard safe oldHead popping (congrArg Pc.stored here)
        (pending_at here rfl) ?_⟩
      intro i slot stored equal
      have protecting : ((s.store i oldHead).pc thread).popping := popping
      refine stored.roam (.roaming rfl rfl ?_ (fun _ => (stored.fine thread).hasSlot protecting)
        (fun _ none_ => nomatch none_)) rfl rfl
      rintro pointer same
      cases same
      exact ⟨i, slot, equal⟩
  | validate temp =>
      rw [here] at taken
      exact ⟨nodes, .validate safe here taken⟩
  | readNext oldHead =>
      rw [here] at taken
      exact ⟨nodes, .readNext safe here taken⟩
  | popCas oldHead next =>
      rw [here] at taken
      exact Step.popCas safe here taken
  | clear oldHead =>
      rw [here] at taken
      cases oldHead with
      | none =>
          cases taken
          exact ⟨nodes, .clearNone safe here⟩
      | some oldHead =>
          cases taken
          exact ⟨nodes, .clear safe here⟩
  | take oldHead =>
      rw [here] at taken
      exact ⟨nodes, .take safe here taken⟩
  | scan oldHead res i =>
      rw [here] at taken
      exact ⟨nodes, .scan safe here taken⟩
  | delete oldHead res =>
      rw [here] at taken
      exact ⟨nodes, .delete safe here taken⟩
  | exiting i =>
      rw [here] at taken
      cases taken
      exact ⟨nodes, .exiting safe here⟩

/-- Every action of a thread keeps the memory safe, and the stack goes on as a
plain stack with the effects that the action shows. -/
theorem step_of_next (safe : Safe s nodes) {action : Action T}
    (taken : next s (thread, action) = some after) :
    Exists fun later => Step s after nodes later thread (observe s (thread, action)) := by
  cases action with
  | step => exact Step.advance safe taken
  | push data =>
      cases here : s.pc thread with
      | idle =>
          simp only [next, here] at taken
          cases taken
          have quiet : (Pc.pushNew data : Pc T).Quiet :=
            ⟨rfl, rfl, rfl, fun popping => popping, fun _ exiting => nomatch exiting⟩
          exact ⟨nodes, .goto (safe.quiet quiet) (pending_at here rfl)⟩
      | _ =>
          simp only [next, here] at taken
          cases taken
  | pop =>
      cases here : s.pc thread with
      | idle =>
          simp only [next, here] at taken
          cases slot : s.slot thread with
          | none =>
              rw [slot] at taken
              cases taken
              have quiet : (Pc.acquire 0 : Pc T).Quiet :=
                ⟨rfl, rfl, rfl, fun popping => popping, fun _ exiting => nomatch exiting⟩
              exact ⟨nodes, .goto (safe.quiet quiet) (pending_at here rfl)⟩
          | some i =>
              rw [slot] at taken
              cases taken
              have fine : Fine s nodes thread .popLoad := by
                refine .roaming rfl rfl (fun _ none_ => nomatch none_) (fun _ => ?_)
                  (fun _ none_ => nomatch none_)
                rw [slot]
                exact Option.some_ne_none _
              exact ⟨nodes, .goto (safe.roam fine rfl rfl) (pending_at here rfl)⟩
      | _ =>
          simp only [next, here] at taken
          cases taken
  | exit =>
      cases here : s.pc thread with
      | idle =>
          simp only [next, here] at taken
          cases slot : s.slot thread with
          | none =>
              rw [slot] at taken
              cases taken
          | some i =>
              rw [slot] at taken
              cases taken
              have stored := safe.store slot (congrArg Pc.stored here) none
              have fine : Fine (s.store i none) nodes thread (.exiting i) := by
                refine .roaming rfl rfl (fun _ none_ => nomatch none_) False.elim ?_
                rintro j same
                cases same
                exact slot
              exact ⟨nodes, .silent (stored.roam fine rfl rfl) rfl (fun _ _ => rfl)
                (fun _ _ _ _ => rfl) (pending_at here rfl)⟩
      | _ =>
          simp only [next, here] at taken
          cases taken
  | new address =>
      cases here : s.pc thread with
      | pushNew data =>
          simp only [next, here] at taken
          by_cases free : s.heap address = none
          · rw [if_pos free] at taken
            cases taken
            exact ⟨nodes, .allocate safe here free⟩
          · rw [if_neg free] at taken
            cases taken
      | _ =>
          simp only [next, here] at taken
          cases taken
  | spurious =>
      cases here : s.pc thread with
      | pushCas newNode =>
          simp only [next, here] at taken
          cases taken
          exact ⟨nodes, .linkNew safe (congrArg Pc.owned here) (congrArg Pc.full here)
            (congrArg Pc.passed here) (pending_at here rfl)⟩
      | popCas oldHead following =>
          simp only [next, here] at taken
          cases taken
          have popping : (s.pc thread).popping := by
            rw [here]
            trivial
          exact ⟨nodes, .protectHead safe popping (pending_at here rfl)⟩
      | _ =>
          simp only [next, here] at taken
          cases taken

/-! ## Runs -/

/-- A state with what an observer has noted on the way to it. -/
def Explained (s : State T) (noted : List (Observation T)) : Prop :=
  Exists fun nodes => Safe s nodes ∧ Run Performs [] (effects noted) (contents s.heap nodes) ∧
    forall thread, popped thread noted = returned thread noted ++ pending s.heap (s.pc thread)

theorem explained_of_run {events : List (Nat × Action T)} {s : State T}
    (run : Run (Stepping next) new events s) : Explained s (history next observe new events) := by
  apply run.invariant_history _ ⟨[], safe_new, .refl _, fun _ => rfl⟩
  rintro before ⟨thread, action⟩ after noted ⟨nodes, safe, stack, results⟩ taken
  rcases step_of_next safe taken with ⟨later, step⟩
  refine ⟨later, step.safe, ?_, ?_⟩
  · rw [effects_append]
    exact stack.append step.stack
  · intro other
    rw [popped_append, returned_append, results other, List.append_assoc, List.append_assoc]
    congr 1
    by_cases same : other = thread
    · subst same
      exact step.own
    · rcases step.others other same with ⟨kept, none_, nothing⟩
      rw [kept, none_, nothing, List.append_nil, List.nil_append]

/-- No thread ever uses memory that is not allocated, or deletes it again. -/
theorem no_fault_of_run {events : List (Nat × Action T)} {s : State T}
    (run : Run (Stepping next) new events s) : s.fault = false := by
  rcases explained_of_run run with ⟨nodes, safe, _, _⟩
  exact safe.sound

/-- Two threads take the same node for the head.  One of them takes it off and
does not delete it, because the other one protects it. -/
def contended : List (Nat × Action Nat) :=
  [(0, .push 5), (0, .new 7), (0, .step), (0, .step), (1, .pop), (1, .step), (1, .step), (1, .step),
    (1, .step), (2, .pop), (2, .step), (2, .step), (2, .step), (2, .step), (2, .step), (2, .step),
    (2, .step), (2, .step), (2, .step), (2, .step), (1, .step), (1, .step)]

theorem no_fault_of_run_contended :
    Exists fun s => Run (Stepping next) new contended s ∧ s.head = none ∧ s.fault = false := by
  have executed : (execute next new contended).map State.head = some none := by decide
  rcases Run.of_execute_map executed with ⟨s, run, head⟩
  exact ⟨s, run, head, no_fault_of_run run⟩

end LockFreeStack
end ConcInAction
end ServerTech
