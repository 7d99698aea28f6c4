import ServerTech.Foundation.Chain
import ServerTech.Foundation.Transition

namespace ServerTech
namespace ConcInAction
namespace LockFreeStack

open Transition

universe u

variable {T : Type u}

/-!
# The lock-free stack with hazard pointers

`lock_free_stack::push` and `pop` and the hazard pointers of
lock_free_stack.h and hazard_pointer.h.  Any number of threads take turns, and
every access to memory that threads share is a step of its own.  A weak
compare-and-exchange may fail for no reason.  The allocator may give any address
that is free, an address that was in use before as well.  A step that uses memory
that is not allocated sets `fault`.

`reclaim_later` and `delete_nodes_with_no_hazards` have no body in the source, so
a node that another thread still protects is never deleted.
-/

/-- `lock_free_stack::node`. -/
structure Node (T : Type u) where
  data : Option T
  next : Option Nat
  deriving DecidableEq, Repr

/-- `hazard_pointer`. -/
structure Hazard where
  id : Option Nat
  pointer : Option Nat
  deriving DecidableEq, Repr

/-- `max_hazard_pointers`. -/
def maxHazardPointers : Nat := 100

/-- Where a thread is.  The names of the locals are those of the source. -/
inductive Pc (T : Type u) where
  | idle
  /-- `new node( data )`. -/
  | pushNew (data : T)
  /-- `new_node->next = head.load()`. -/
  | pushLoad (newNode : Nat)
  /-- The loop of `push`. -/
  | pushCas (newNode : Nat)
  /-- The loop of `hp_owner`. -/
  | acquire (i : Nat)
  /-- The first `head.load()` of `pop`. -/
  | popLoad
  /-- `hp.store( old_head )`. -/
  | protect (oldHead : Option Nat)
  /-- `old_head = head.load()` and the test of the inner loop. -/
  | validate (temp : Option Nat)
  /-- `old_head->next`. -/
  | readNext (oldHead : Nat)
  /-- The test of the outer loop. -/
  | popCas (oldHead : Nat) (next : Option Nat)
  /-- `hp.store( nullptr )`. -/
  | clear (oldHead : Option Nat)
  /-- `res.swap( old_head->data )`. -/
  | take (oldHead : Nat)
  /-- The loop of `outstanding_hazard_pointers_for`. -/
  | scan (oldHead : Nat) (res : Option T) (i : Nat)
  /-- `delete old_head`. -/
  | delete (oldHead : Nat) (res : Option T)
  /-- The second store of `~hp_owner`. -/
  | exiting (i : Nat)
  deriving DecidableEq, Repr

/-- The memory, and the threads with the slot of their hazard pointer. -/
structure State (T : Type u) where
  head : Option Nat
  heap : Nat -> Option (Node T)
  hazards : Nat -> Hazard
  slot : Nat -> Option Nat
  pc : Nat -> Pc T
  fault : Bool

/-- What a thread may do: call or end, take the next step, with an address when
it is an allocation, or fail for no reason. -/
inductive Action (T : Type u) where
  | push (data : T)
  | pop
  | exit
  | new (address : Nat)
  | step
  | spurious
  deriving DecidableEq, Repr

/-- An empty stack and idle threads. -/
def new : State T where
  head := none
  heap := fun _ => none
  hazards := fun _ => ⟨none, none⟩
  slot := fun _ => none
  pc := fun _ => .idle
  fault := false

namespace State

/-- Go on with a thread elsewhere. -/
def goto (s : State T) (thread : Nat) (pc : Pc T) : State T :=
  { s with pc := Function.update s.pc thread pc }

/-- Store a hazard pointer. -/
def store (s : State T) (i : Nat) (pointer : Option Nat) : State T :=
  { s with hazards := Function.update s.hazards i { s.hazards i with pointer := pointer } }

/-- Write or free the memory at an address. -/
def write (s : State T) (address : Nat) (content : Option (Node T)) : State T :=
  { s with heap := Function.update s.heap address content }

/-- Take a slot for a thread. -/
def enter (s : State T) (thread i : Nat) : State T :=
  { s with
    hazards := Function.update s.hazards i { s.hazards i with id := some thread }
    slot := Function.update s.slot thread (some i) }

/-- Give a slot back. -/
def leave (s : State T) (thread i : Nat) : State T :=
  { s with
    hazards := Function.update s.hazards i { s.hazards i with id := none }
    slot := Function.update s.slot thread none }

/-- Use of memory that is not there. -/
def failed (s : State T) : State T :=
  { s with fault := true }

end State

/-- Set the link of the new node, and go on. -/
def linkNew (s : State T) (thread newNode : Nat) : State T :=
  match s.heap newNode with
  | none => s.failed
  | some node =>
      (s.write newNode (some { node with next := s.head })).goto thread (.pushCas newNode)

/-- The compare-and-exchange of `push`. -/
def pushExchange (s : State T) (thread newNode : Nat) : State T :=
  match s.heap newNode with
  | none => s.failed
  | some node =>
      if s.head = node.next then { s.goto thread .idle with head := some newNode }
      else linkNew s thread newNode

/-- Store the hazard pointer of a thread, and go on. -/
def storeHazard (s : State T) (thread : Nat) (pointer : Option Nat) (pc : Pc T) : State T :=
  match s.slot thread with
  | none => s.failed
  | some i => (s.store i pointer).goto thread pc

/-- Leave the inner loop of `pop`. -/
def leaveLoop (s : State T) (thread : Nat) : Option Nat -> State T
  | none => s.goto thread (.clear none)
  | some oldHead => s.goto thread (.readNext oldHead)

/-- One step of a thread.  The constructor throws when no hazard pointer is
free. -/
def advance (s : State T) (thread : Nat) : Pc T -> Option (State T)
  | .idle => none
  | .pushNew _ => none
  | .pushLoad newNode => some (linkNew s thread newNode)
  | .pushCas newNode => some (pushExchange s thread newNode)
  | .acquire i =>
      if maxHazardPointers ≤ i then some (s.goto thread .idle)
      else if (s.hazards i).id = none then some ((s.enter thread i).goto thread .popLoad)
      else some (s.goto thread (.acquire (i + 1)))
  | .popLoad => some (s.goto thread (.protect s.head))
  | .protect oldHead => some (storeHazard s thread oldHead (.validate oldHead))
  | .validate temp =>
      some (if s.head = temp then leaveLoop s thread temp else s.goto thread (.protect s.head))
  | .readNext oldHead =>
      match s.heap oldHead with
      | none => some s.failed
      | some node => some (s.goto thread (.popCas oldHead node.next))
  | .popCas oldHead next =>
      if s.head = some oldHead then
        some ({ s with head := next }.goto thread (.clear (some oldHead)))
      else some (s.goto thread (.protect s.head))
  | .clear none => some (storeHazard s thread none .idle)
  | .clear (some oldHead) => some (storeHazard s thread none (.take oldHead))
  | .take oldHead =>
      match s.heap oldHead with
      | none => some s.failed
      | some node =>
          some ((s.write oldHead (some { node with data := none })).goto thread
            (.scan oldHead node.data 0))
  | .scan oldHead res i =>
      if maxHazardPointers ≤ i then some (s.goto thread (.delete oldHead res))
      else if (s.hazards i).pointer = some oldHead then some (s.goto thread .idle)
      else some (s.goto thread (.scan oldHead res (i + 1)))
  | .delete oldHead _ =>
      match s.heap oldHead with
      | none => some s.failed
      | some _ => some ((s.goto thread .idle).write oldHead none)
  | .exiting i => some ((s.goto thread .idle).leave thread i)

/-- One action of a thread. -/
def next (s : State T) (event : Nat × Action T) : Option (State T) :=
  match event.2, s.pc event.1 with
  | .push data, .idle => some (s.goto event.1 (.pushNew data))
  | .pop, .idle =>
      match s.slot event.1 with
      | none => some (s.goto event.1 (.acquire 0))
      | some _ => some (s.goto event.1 .popLoad)
  | .exit, .idle =>
      match s.slot event.1 with
      | none => none
      | some i => some ((s.store i none).goto event.1 (.exiting i))
  | .new address, .pushNew data =>
      if s.heap address = none then
        some ((s.write address (some ⟨some data, none⟩)).goto event.1 (.pushLoad address))
      else none
  | .step, pc => advance s event.1 pc
  | .spurious, .pushCas newNode => some (linkNew s event.1 newNode)
  | .spurious, .popCas _ _ => some (s.goto event.1 (.protect s.head))
  | _, _ => none

end LockFreeStack
end ConcInAction
end ServerTech
