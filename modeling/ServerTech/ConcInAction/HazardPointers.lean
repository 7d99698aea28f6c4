import ServerTech.ConcInAction.LockFreeStack

namespace ServerTech
namespace ConcInAction
namespace LockFreeStack

open Transition

universe u

variable {T : Type u}

/-!
# Memory safety of the lock-free stack

A thread uses a node that it has protected and then found at the head, or a node
of its own.  A node that is taken off the stack belongs to the thread that took
it, until that thread has looked at all hazard pointers and deletes it.  A
thread that protects the node has its hazard pointer in a slot that the scan has
not passed yet, so the scan will see it.  Hence no step uses memory that is not
allocated, whatever address the allocator gives out again.
-/

/-! ## Where a thread is -/

namespace Pc

/-- The node that belongs to the thread alone. -/
def owned : Pc T -> Option Nat
  | .pushLoad newNode => some newNode
  | .pushCas newNode => some newNode
  | .clear oldHead => oldHead
  | .take oldHead => some oldHead
  | .scan oldHead _ _ => some oldHead
  | .delete oldHead _ => some oldHead
  | _ => none

/-- A node of the thread with its data still in it. -/
def full : Pc T -> Option Nat
  | .pushLoad newNode => some newNode
  | .pushCas newNode => some newNode
  | .clear oldHead => oldHead
  | .take oldHead => some oldHead
  | _ => none

/-- The node that the thread has found at the head behind its hazard pointer. -/
def guarded : Pc T -> Option Nat
  | .readNext oldHead => some oldHead
  | .popCas oldHead _ => some oldHead
  | _ => none

/-- The value of the hazard pointer, where the thread counts on it. -/
def stored : Pc T -> Option (Option Nat)
  | .validate temp => some temp
  | .readNext oldHead => some (some oldHead)
  | .popCas oldHead _ => some (some oldHead)
  | _ => none

/-- How many slots cannot protect the node of the thread any more. -/
def passed : Pc T -> Nat
  | .clear _ => 0
  | .take _ => 0
  | .scan _ _ i => i
  | _ => maxHazardPointers

/-- The thread needs its slot. -/
def popping : Pc T -> Prop
  | .popLoad => True
  | .protect _ => True
  | .validate _ => True
  | .readNext _ => True
  | .popCas _ _ => True
  | .clear _ => True
  | _ => False

theorem owned_of_full {pc : Pc T} {node : Nat} (full : pc.full = some node) :
    pc.owned = some node := by
  cases pc <;> first | exact full | cases full

theorem owned_of_guarded {pc : Pc T} {node : Nat} (guarded : pc.guarded = some node) :
    pc.owned = none := by
  cases pc <;> cases guarded <;> rfl

theorem stored_of_guarded {pc : Pc T} {node : Nat} (guarded : pc.guarded = some node) :
    pc.stored = some (some node) := by
  cases pc <;> cases guarded <;> rfl

end Pc

/-- The link of a node in the memory. -/
def link (heap : Nat -> Option (Node T)) (address : Nat) : Option (Option Nat) :=
  (heap address).map Node.next

/-! ## The invariant -/

/-- The node at the address still has its data. -/
def Holding (heap : Nat -> Option (Node T)) (address : Nat) : Prop :=
  Exists fun data => Exists fun next => heap address = some ⟨some data, next⟩

/-- What a thread counts on. -/
structure Counting (heap : Nat -> Option (Node T)) (hazards : Nat -> Hazard)
    (slot : Nat -> Option Nat) (nodes : List Nat) (thread : Nat) (pc : Pc T) : Prop where
  own : forall node, pc.owned = some node -> heap node ≠ none ∧ node ∉ nodes
  full : forall node, pc.full = some node -> Holding heap node
  guard : forall node, pc.guarded = some node -> heap node ≠ none
  link : forall node next, pc = .popCas node next -> link heap node = some next
  stored : forall pointer, pc.stored = some pointer ->
    Exists fun i => slot thread = some i ∧ (hazards i).pointer = pointer
  hasSlot : pc.popping -> slot thread ≠ none
  exiting : forall i, pc = .exiting i -> slot thread = some i

/-- What a thread counts on in a state, somewhere else. -/
abbrev Fine (s : State T) (nodes : List Nat) (thread : Nat) (pc : Pc T) : Prop :=
  Counting s.heap s.hazards s.slot nodes thread pc

/-- Two threads do not get in each other's way: the first one owns no node of
the second one, and protects none that the second one is about to delete. -/
structure Apart (slot : Nat -> Option Nat) (thread : Nat) (pc other : Pc T) : Prop where
  own : forall node, pc.owned = some node -> other.owned ≠ some node
  scan : forall node i, pc.guarded = some node -> other.owned = some node ->
    slot thread = some i -> other.passed ≤ i

/-- The nodes from the head on are the stack, and every thread is fine. -/
structure Safe (s : State T) (nodes : List Nat) : Prop where
  chain : Chain (link s.heap) s.head nodes
  nodup : nodes.Nodup
  data : forall node, node ∈ nodes -> Holding s.heap node
  fine : forall thread, Fine s nodes thread (s.pc thread)
  apart : forall one two, one ≠ two -> Apart s.slot one (s.pc one) (s.pc two)
  slots : forall thread i, s.slot thread = some i ->
    i < maxHazardPointers ∧ (s.hazards i).id = some thread
  sound : s.fault = false

theorem safe_new : Safe (new : State T) [] where
  chain := .nil
  nodup := .nil
  data := fun _ member => absurd member List.not_mem_nil
  fine := fun _ => {
    own := fun _ none_ => nomatch none_
    full := fun _ none_ => nomatch none_
    guard := fun _ none_ => nomatch none_
    link := fun _ _ none_ => nomatch none_
    stored := fun _ none_ => nomatch none_
    hasSlot := fun none_ => none_.elim
    exiting := fun _ none_ => nomatch none_ }
  apart := fun _ _ _ => {
    own := fun _ none_ => nomatch none_
    scan := fun _ _ none_ => nomatch none_ }
  slots := fun _ _ none_ => nomatch none_
  sound := rfl

/-- A place where a thread counts on nothing. -/
structure Pc.Quiet (pc : Pc T) : Prop where
  owned : pc.owned = none
  guarded : pc.guarded = none
  stored : pc.stored = none
  popping : ¬ pc.popping
  exiting : forall i, pc ≠ .exiting i

theorem Pc.idle_quiet : (Pc.idle : Pc T).Quiet :=
  ⟨rfl, rfl, rfl, fun popping => popping, fun _ exiting => nomatch exiting⟩

theorem Pc.Quiet.full {pc : Pc T} (quiet : pc.Quiet) (node : Nat) : pc.full ≠ some node := by
  intro full
  have owned := Pc.owned_of_full full
  rw [quiet.owned] at owned
  cases owned

theorem Pc.Quiet.counting {pc : Pc T} (quiet : pc.Quiet) (heap : Nat -> Option (Node T))
    (hazards : Nat -> Hazard) (slot : Nat -> Option Nat) (nodes : List Nat) (thread : Nat) :
    Counting heap hazards slot nodes thread pc where
  own := by
    intro node owned
    rw [quiet.owned] at owned
    cases owned
  full := fun node full => absurd full (quiet.full node)
  guard := by
    intro node guarded
    rw [quiet.guarded] at guarded
    cases guarded
  link := by
    rintro node next rfl
    cases quiet.guarded
  stored := by
    intro pointer stored
    rw [quiet.stored] at stored
    cases stored
  hasSlot := fun popping => absurd popping quiet.popping
  exiting := fun i exiting => absurd exiting (quiet.exiting i)

theorem Apart.of_none {slot : Nat -> Option Nat} {thread : Nat} {pc other : Pc T}
    (owned : pc.owned = none) (guarded : pc.guarded = none) : Apart slot thread pc other where
  own := by
    intro node own
    rw [owned] at own
    cases own
  scan := by
    intro node i guard
    rw [guarded] at guard
    cases guard

theorem Apart.of_none_right {slot : Nat -> Option Nat} {thread : Nat} {pc other : Pc T}
    (owned : other.owned = none) : Apart slot thread pc other where
  own := by
    intro node _ own
    rw [owned] at own
    cases own
  scan := by
    intro node i _ own
    rw [owned] at own
    cases own

theorem Apart.left {slot : Nat -> Option Nat} {thread : Nat} {pc later other : Pc T}
    (apart : Apart slot thread pc other)
    (own : forall node, later.owned = some node -> pc.owned = some node)
    (guard : forall node, later.guarded = some node -> pc.guarded = some node) :
    Apart slot thread later other where
  own := fun node owned => apart.own node (own node owned)
  scan := fun node i guarded => apart.scan node i (guard node guarded)

theorem Apart.right {slot : Nat -> Option Nat} {thread : Nat} {pc other later : Pc T}
    (apart : Apart slot thread pc other)
    (own : forall node, later.owned = some node -> other.owned = some node)
    (passed : later.passed ≤ other.passed) : Apart slot thread pc later where
  own := fun node owned same => apart.own node owned (own node same)
  scan := fun node i guarded same slot =>
    Nat.le_trans passed (apart.scan node i guarded (own node same) slot)

/-! ## Changes of the state -/

variable {s : State T} {nodes : List Nat} {thread : Nat}

theorem Safe.goto (safe : Safe s nodes) {pc : Pc T} (fine : Fine s nodes thread pc)
    (own : forall other, other ≠ thread -> Apart s.slot thread pc (s.pc other))
    (foreign : forall other, other ≠ thread -> Apart s.slot other (s.pc other) pc) :
    Safe (s.goto thread pc) nodes := by
  refine ⟨safe.chain, safe.nodup, safe.data, ?_, ?_, safe.slots, safe.sound⟩
  · intro other
    change Fine s nodes other (Function.update s.pc thread pc other)
    by_cases same : other = thread
    · subst same
      rw [Function.update_self]
      exact fine
    · rw [Function.update_of_ne same]
      exact safe.fine other
  · intro one two different
    change Apart s.slot one (Function.update s.pc thread pc one) (Function.update s.pc thread pc two)
    by_cases first : one = thread
    · subst first
      rw [Function.update_self, Function.update_of_ne (Ne.symm different)]
      exact own two (Ne.symm different)
    · rw [Function.update_of_ne first]
      by_cases second : two = thread
      · subst second
        rw [Function.update_self]
        exact foreign one first
      · rw [Function.update_of_ne second]
        exact safe.apart one two different

theorem Safe.quiet (safe : Safe s nodes) {pc : Pc T} (quiet : pc.Quiet) :
    Safe (s.goto thread pc) nodes :=
  safe.goto (quiet.counting _ _ _ _ _) (fun _ _ => .of_none quiet.owned quiet.guarded)
    (fun _ _ => .of_none_right quiet.owned)

/-- A thread goes on with its own node, and passes no slot. -/
theorem Safe.keep (safe : Safe s nodes) {pc : Pc T} (fine : Fine s nodes thread pc)
    (own : forall node, pc.owned = some node -> (s.pc thread).owned = some node)
    (guard : forall node, pc.guarded = some node -> (s.pc thread).guarded = some node)
    (passed : pc.passed ≤ (s.pc thread).passed) : Safe (s.goto thread pc) nodes :=
  safe.goto fine (fun other different => (safe.apart thread other (Ne.symm different)).left own guard)
    (fun other different => (safe.apart other thread different).right own passed)

theorem Safe.slot_inj (safe : Safe s nodes) {one two i : Nat} (first : s.slot one = some i)
    (second : s.slot two = some i) : one = two := by
  have same := (safe.slots one i first).2.symm.trans (safe.slots two i second).2
  exact Option.some.inj same

/-- A thread stores its hazard pointer where it does not count on the old one. -/
theorem Safe.store (safe : Safe s nodes) {i : Nat} (slot : s.slot thread = some i)
    (unused : (s.pc thread).stored = none) (pointer : Option Nat) :
    Safe (s.store i pointer) nodes := by
  have ids : forall j, ((s.store i pointer).hazards j).id = (s.hazards j).id := by
    intro j
    change (Function.update s.hazards i _ j).id = _
    by_cases same : j = i
    · subst same
      rw [Function.update_self]
    · rw [Function.update_of_ne same]
  refine ⟨safe.chain, safe.nodup, safe.data, ?_, safe.apart, ?_, safe.sound⟩
  · intro other
    refine { safe.fine other with stored := ?_ }
    intro value stored
    rcases (safe.fine other).stored value stored with ⟨j, own, equal⟩
    have different : j ≠ i := by
      rintro rfl
      have same := safe.slot_inj own slot
      subst same
      cases unused.symm.trans stored
    refine ⟨j, own, ?_⟩
    change (Function.update s.hazards i _ j).pointer = value
    rw [Function.update_of_ne different]
    exact equal
  · intro other j own
    rw [ids]
    exact safe.slots other j own

/-- A thread changes its slot where it does not count on it. -/
theorem Safe.reslot (safe : Safe s nodes) (quiet : (s.pc thread).Quiet) {hazards : Nat -> Hazard}
    {slot : Nat -> Option Nat} (others : forall other, other ≠ thread -> slot other = s.slot other)
    (kept : forall j, (hazards j).pointer = (s.hazards j).pointer)
    (slots : forall other i, slot other = some i ->
      i < maxHazardPointers ∧ (hazards i).id = some other) :
    Safe { s with hazards := hazards, slot := slot } nodes := by
  refine ⟨safe.chain, safe.nodup, safe.data, ?_, ?_, slots, safe.sound⟩
  · intro other
    by_cases same : other = thread
    · subst same
      exact quiet.counting _ _ _ _ _
    · refine { safe.fine other with stored := ?_, hasSlot := ?_, exiting := ?_ }
      · intro value stored
        rcases (safe.fine other).stored value stored with ⟨j, mine, equal⟩
        exact ⟨j, (others other same).trans mine, (kept j).trans equal⟩
      · intro popping
        change slot other ≠ none
        rw [others other same]
        exact (safe.fine other).hasSlot popping
      · intro j exiting
        exact (others other same).trans ((safe.fine other).exiting j exiting)
  · intro one two different
    by_cases same : one = thread
    · subst same
      exact .of_none quiet.owned quiet.guarded
    · refine { safe.apart one two different with scan := ?_ }
      intro node j guarded owned mine
      exact (safe.apart one two different).scan node j guarded owned
        ((others one same).symm.trans mine)

theorem pointer_update (hazards : Nat -> Hazard) (i j : Nat) (id : Option Nat) :
    (Function.update hazards i { hazards i with id := id } j).pointer = (hazards j).pointer := by
  by_cases same : j = i
  · subst same
    rw [Function.update_self]
  · rw [Function.update_of_ne same]

theorem Safe.enter (safe : Safe s nodes) {i : Nat} (small : i < maxHazardPointers)
    (free : (s.hazards i).id = none) (quiet : (s.pc thread).Quiet) :
    Safe (s.enter thread i) nodes := by
  refine safe.reslot quiet (fun other different => Function.update_of_ne different _ _)
    (fun j => pointer_update s.hazards i j _) ?_
  intro other j slot
  by_cases same : other = thread
  · subst same
    rw [Function.update_self] at slot
    cases slot
    rw [Function.update_self]
    exact ⟨small, rfl⟩
  · rw [Function.update_of_ne same] at slot
    rcases safe.slots other j slot with ⟨below, id⟩
    have different : j ≠ i := by
      rintro rfl
      rw [free] at id
      cases id
    rw [Function.update_of_ne different]
    exact ⟨below, id⟩

theorem Safe.leave (safe : Safe s nodes) {i : Nat} (mine : s.slot thread = some i)
    (quiet : (s.pc thread).Quiet) : Safe (s.leave thread i) nodes := by
  refine safe.reslot quiet (fun other different => Function.update_of_ne different _ _)
    (fun j => pointer_update s.hazards i j _) ?_
  intro other j slot
  by_cases same : other = thread
  · subst same
    rw [Function.update_self] at slot
    cases slot
  · rw [Function.update_of_ne same] at slot
    have different : j ≠ i := by
      rintro rfl
      exact same (safe.slot_inj slot mine)
    rw [Function.update_of_ne different]
    exact safe.slots other j slot

/-- A write to memory that is not part of the stack, and that is not used by
anybody in a way that the write would spoil. -/
theorem Safe.write (safe : Safe s nodes) {address : Nat} {content : Option (Node T)}
    (outside : address ∉ nodes)
    (own : forall other, (s.pc other).owned = some address -> content ≠ none)
    (full : forall other, (s.pc other).full = some address ->
      Exists fun data => Exists fun next => content = some ⟨some data, next⟩)
    (guard : forall other, (s.pc other).guarded = some address ->
      content.map Node.next = link s.heap address) : Safe (s.write address content) nodes := by
  have here : (s.write address content).heap address = content := Function.update_self _ _ _
  have there : forall node, node ≠ address -> (s.write address content).heap node = s.heap node :=
    fun node different => Function.update_of_ne different _ _
  have apart : forall node, node ∈ nodes -> node ≠ address := by
    rintro node member rfl
    exact outside member
  refine ⟨?_, safe.nodup, ?_, ?_, safe.apart, safe.slots, safe.sound⟩
  · apply safe.chain.frame
    intro node member
    rw [link, link, there node (apart node member)]
  · intro node member
    rw [Holding, there node (apart node member)]
    exact safe.data node member
  · intro other
    have fine := safe.fine other
    refine { fine with own := ?_, full := ?_, guard := ?_, link := ?_ }
    · intro node owned
      refine ⟨?_, (fine.own node owned).2⟩
      by_cases same : node = address
      · subst same
        rw [here]
        exact own other owned
      · rw [there node same]
        exact (fine.own node owned).1
    · intro node holds
      by_cases same : node = address
      · subst same
        rw [Holding, here]
        exact full other holds
      · rw [Holding, there node same]
        exact fine.full node holds
    · intro node guarded
      by_cases same : node = address
      · subst same
        rw [here]
        intro none_
        have linked := guard other guarded
        rw [none_, link] at linked
        exact fine.guard node guarded (Option.map_eq_none_iff.mp linked.symm)
      · rw [there node same]
        exact fine.guard node guarded
    · intro node next where_
      have linked := fine.link node next where_
      by_cases same : node = address
      · subst same
        have guarded : (s.pc other).guarded = some node := congrArg Pc.guarded where_
        rw [link, here, guard other guarded]
        exact linked
      · rw [link, there node same]
        exact linked

/-- A node that nobody owns becomes the head. -/
theorem Safe.publish (safe : Safe s nodes) {node : Nat} {data : T} (outside : node ∉ nodes)
    (free : forall other, (s.pc other).owned ≠ some node)
    (ready : s.heap node = some ⟨some data, s.head⟩) :
    Safe { s with head := some node } (node :: nodes) := by
  refine ⟨.cons ?_ safe.chain, List.nodup_cons.mpr ⟨outside, safe.nodup⟩, ?_, ?_, safe.apart,
    safe.slots, safe.sound⟩
  · rw [link, ready]
    rfl
  · intro other member
    rcases List.mem_cons.mp member with rfl | deep
    · exact ⟨data, s.head, ready⟩
    · exact safe.data other deep
  · intro other
    refine { safe.fine other with own := ?_ }
    intro mine owned
    have before := (safe.fine other).own mine owned
    refine ⟨before.1, ?_⟩
    intro member
    rcases List.mem_cons.mp member with rfl | deep
    · exact free other owned
    · exact before.2 deep

/-- The head is taken off. -/
theorem Safe.unlink {node : Nat} {others : List Nat} (safe : Safe s (node :: others))
    {next : Option Nat} (linked : link s.heap node = some next) :
    s.head = some node ∧ Safe { s with head := next } others := by
  generalize same : node :: others = all at safe
  have chain := safe.chain
  cases head : s.head with
  | none =>
      rw [head] at chain
      rw [chain.of_none] at same
      cases same
  | some first =>
      rw [head] at chain
      rcases chain.uncons with ⟨after, rest, equal, found, tail⟩
      rw [equal] at same
      cases same
      rw [linked] at found
      cases found
      rw [equal] at safe
      refine ⟨rfl, tail, (List.nodup_cons.mp safe.nodup).2, ?_, ?_, safe.apart, safe.slots,
        safe.sound⟩
      · exact fun other member => safe.data other (List.mem_cons_of_mem _ member)
      · intro other
        refine { safe.fine other with own := ?_ }
        intro mine owned
        have before := (safe.fine other).own mine owned
        exact ⟨before.1, fun member => before.2 (List.mem_cons_of_mem _ member)⟩

/-! ## Places of a thread -/

/-- A place where a thread counts on nothing but a node of its own. -/
structure Pc.Calm (pc : Pc T) : Prop where
  guarded : pc.guarded = none
  stored : pc.stored = none
  popping : ¬ pc.popping
  exiting : forall i, pc ≠ .exiting i

theorem Counting.calm {heap : Nat -> Option (Node T)} {hazards : Nat -> Hazard}
    {slot : Nat -> Option Nat} {pc later : Pc T}
    (counting : Counting heap hazards slot nodes thread pc) (calm : later.Calm)
    (own : forall node, later.owned = some node -> pc.owned = some node)
    (full : forall node, later.full = some node -> pc.full = some node) :
    Counting heap hazards slot nodes thread later where
  own := fun node owned => counting.own node (own node owned)
  full := fun node holds => counting.full node (full node holds)
  guard := by
    intro node guarded
    rw [calm.guarded] at guarded
    cases guarded
  link := by
    rintro node next rfl
    cases calm.guarded
  stored := by
    intro pointer stored
    rw [calm.stored] at stored
    cases stored
  hasSlot := fun popping => absurd popping calm.popping
  exiting := fun i exiting => absurd exiting (calm.exiting i)

theorem Safe.roam (safe : Safe s nodes) {pc : Pc T} (fine : Fine s nodes thread pc)
    (owned : pc.owned = none) (guarded : pc.guarded = none) : Safe (s.goto thread pc) nodes :=
  safe.goto fine (fun _ _ => .of_none owned guarded) (fun _ _ => .of_none_right owned)

/-- No thread guards a node that another one owns and has scanned for, or has
never shown. -/
theorem Safe.unguarded (safe : Safe s nodes) {node : Nat} (owned : (s.pc thread).owned = some node)
    (passed : (s.pc thread).passed = maxHazardPointers) (other : Nat) :
    (s.pc other).guarded ≠ some node := by
  intro guarded
  by_cases same : other = thread
  · subst same
    cases (Pc.owned_of_guarded guarded).symm.trans owned
  · rcases (safe.fine other).stored _ (Pc.stored_of_guarded guarded) with ⟨i, slot, _⟩
    have least := (safe.apart other thread same).scan node i guarded owned slot
    have small := (safe.slots other i slot).1
    omega

theorem Safe.head_mem (safe : Safe s nodes) {node : Nat} (head : s.head = some node) :
    node ∈ nodes := by
  have chain := safe.chain
  rw [head] at chain
  rcases chain.uncons with ⟨_, others, rfl, _, _⟩
  exact List.mem_cons_self

theorem Safe.unowned (safe : Safe s nodes) {node : Nat} (member : node ∈ nodes) (other : Nat) :
    (s.pc other).owned ≠ some node :=
  fun owned => ((safe.fine other).own node owned).2 member

end LockFreeStack
end ConcInAction
end ServerTech
