import ServerTech.BipBuffer.Invariant
import ServerTech.Foundation.Transition

namespace ServerTech

universe u

/-!
# The bip buffer is a byte queue

The abstract model is a first-in first-out list.  `Fifo.Step` says, for every
operation of the buffer and every result it can return, what the operation
does to the list.  It leaves open when a write is refused and how the free
space is laid out, because a client may not rely on either.

`BipBuffer.Calls` makes one call of the class, and a client may commit at most
the space it was promised.  The refinement theorem follows every run of such
calls from a fresh allocation.
-/

namespace Fifo

/-- The operations, with the bytes of a zero-copy commit given at the call. -/
inductive Op (α : Type u) where
  | write (data : List α)
  | read (count : Nat)
  | remove (count : Nat)
  | getSpace
  | getSize
  | getContiguiousBytes
  | commit (data : List α)
  deriving DecidableEq, Repr

/-- What a call returns.  A failed read returns no bytes. -/
inductive Result (α : Type u) where
  | flag (ok : Bool)
  | bytes (data : Option (List α))
  | size (count : Nat)
  | done
  deriving DecidableEq, Repr

/-- The effect of one operation with its result on the queue. -/
def Step {α : Type u} (queue : List α) : Op α × Result α -> List α -> Prop
  | (.write data, .flag true), after => after = queue ++ data
  | (.write _, .flag false), after => after = queue
  | (.read count, .bytes (some data)), after =>
      count ≤ queue.length ∧ data = queue.take count ∧ after = queue.drop count
  | (.read count, .bytes none), after => queue.length < count ∧ after = queue
  | (.remove count, .done), after => after = queue.drop (min count queue.length)
  | (.getSpace, .size _), after => after = queue
  | (.getSize, .size count), after => count = queue.length ∧ after = queue
  | (.getContiguiousBytes, .size _), after => after = queue
  | (.commit data, .done), after => after = queue ++ data
  | _, _ => False

end Fifo

namespace BipBuffer

open Transition

/-- One call.  There is no result when the call makes a stray access. -/
def call (b : BipBuffer) : Fifo.Op UInt8 -> Option (Fifo.Result UInt8 × BipBuffer)
  | .write data => (b.write data).map fun (ok, after) => (.flag ok, after)
  | .read count => (b.read count).map fun (data, after) => (.bytes data, after)
  | .remove count => (b.remove count).map fun after => (.done, after)
  | .getSpace => some (.size b.getSpace.1, b.getSpace.2)
  | .getSize => some (.size b.getSize, b)
  | .getContiguiousBytes => some (.size b.getContiguiousBytes, b)
  | .commit data => (b.commit data).map fun after => (.done, after)

/-- The client's side of the zero-copy commit: it stores at most as many bytes
as `GetSpace` returned.  Every other call is always allowed. -/
def Allowed (b : BipBuffer) : Fifo.Op UInt8 -> Prop
  | .commit data => data.length ≤ b.getSpace.1
  | _ => True

instance decidableAllowed (b : BipBuffer) (op : Fifo.Op UInt8) : Decidable (b.Allowed op) :=
  match op with
  | .commit data => inferInstanceAs (Decidable (data.length ≤ b.getSpace.1))
  | .write _ | .read _ | .remove _ | .getSpace | .getSize | .getContiguiousBytes =>
      inferInstanceAs (Decidable True)

/-- One allowed call together with its result. -/
def Calls (b : BipBuffer) (event : Fifo.Op UInt8 × Fifo.Result UInt8) (after : BipBuffer) : Prop :=
  b.Allowed event.1 ∧ b.call event.1 = some (event.2, after)

/-- The bytes of both regions lie in `[m_buffer, m_bufferEnd)` and the two
regions share no byte. -/
structure Layout (b : BipBuffer) : Prop where
  block : b.bufferEnd = b.memory.length
  regionA : b.regionAPtr + b.regionASize ≤ b.bufferEnd
  regionB : b.regionBPtr.getD 0 + b.regionBSize ≤ b.bufferEnd
  disjoint : forall position, ¬ (b.regionAPtr ≤ position ∧ position < b.regionAPtr + b.regionASize ∧
    b.regionBPtr.getD 0 ≤ position ∧ position < b.regionBPtr.getD 0 + b.regionBSize)

theorem Valid.layout {b : BipBuffer} (valid : b.Valid) : b.Layout where
  block := valid.capacity
  regionA := valid.fitsA
  regionB := valid.fitsB
  disjoint := by
    intro position both
    have apart := valid.regions_apart
    omega

/-- No allowed call makes a stray access, and each does to the stored bytes
what the queue does.  The capacity never changes. -/
theorem Valid.call_refines {b : BipBuffer} (valid : b.Valid) (op : Fifo.Op UInt8)
    (allowed : b.Allowed op) :
    Exists fun result => Exists fun after => b.call op = some (result, after) ∧ after.Valid ∧
      after.bufferEnd = b.bufferEnd ∧ Fifo.Step b.content (op, result) after.content := by
  have capacityOpened := (opened_fields b).2.2.1
  have pushed : forall data : List UInt8, data.length ≤ b.space ->
      (b.opened.push data).Valid ∧ (b.opened.push data).bufferEnd = b.bufferEnd ∧
        (b.opened.push data).content = b.content ++ data := by
    intro data room
    rw [space_eq_free] at room
    refine ⟨valid.opened.push room, ?_, ?_⟩
    · rw [push_bufferEnd, capacityOpened]
    · rw [valid.opened.push_content room, opened_content]
  cases op with
  | write data =>
      simp only [call, valid.write_eq]
      by_cases room : data.length ≤ b.space
      · rw [if_pos room]
        exact ⟨_, _, rfl, pushed data room⟩
      · rw [if_neg room]
        exact ⟨_, _, rfl, valid.opened, capacityOpened, opened_content b⟩
  | read count =>
      simp only [call, valid.read_eq]
      by_cases within : count ≤ b.content.length
      · rw [if_pos within]
        exact ⟨_, _, rfl, valid.dropFront count, dropFront_bufferEnd b count, within, rfl,
          valid.dropFront_content count⟩
      · rw [if_neg within]
        exact ⟨_, _, rfl, valid, rfl, Nat.not_le.mp within, rfl⟩
  | remove count =>
      simp only [call, valid.remove_eq, Option.map_some]
      exact ⟨_, _, rfl, valid.dropFront _, dropFront_bufferEnd b _, valid.dropFront_content _⟩
  | getSpace => exact ⟨_, _, rfl, valid.opened, capacityOpened, opened_content b⟩
  | getSize => exact ⟨_, _, rfl, valid, rfl, valid.getSize_eq, rfl⟩
  | getContiguiousBytes => exact ⟨_, _, rfl, valid, rfl, rfl⟩
  | commit data =>
      simp only [call, valid.commit_eq allowed, Option.map_some]
      exact ⟨_, _, rfl, pushed data allowed⟩

/-- The invariant is kept by every allowed call that returns. -/
theorem Calls.valid {b after : BipBuffer} {event : Fifo.Op UInt8 × Fifo.Result UInt8}
    (valid : b.Valid) (calls : b.Calls event after) : after.Valid := by
  rcases valid.call_refines event.1 calls.1 with ⟨_, _, same, validAfter, _⟩
  cases same.symm.trans calls.2
  exact validAfter

/-- Every allowed call that returns is a step of the queue. -/
theorem Calls.step {b after : BipBuffer} {event : Fifo.Op UInt8 × Fifo.Result UInt8}
    (valid : b.Valid) (calls : b.Calls event after) :
    Fifo.Step b.content event after.content := by
  rcases valid.call_refines event.1 calls.1 with ⟨_, _, same, _, _, step⟩
  cases same.symm.trans calls.2
  exact step

/-- Every run of allowed calls from a fresh allocation is a run of the queue
from the empty list.  In the state it reaches, the regions lie in the block
and are disjoint, the reported size is the number of stored bytes, and the
next allowed call returns without a stray access. -/
theorem run_refines_fifo (block : List UInt8) {b : BipBuffer}
    {events : List (Fifo.Op UInt8 × Fifo.Result UInt8)}
    (run : Run Calls (new.allocate block) events b) :
    Run Fifo.Step [] events b.content ∧ b.Layout ∧ b.getSize = b.content.length ∧
      forall op, b.Allowed op -> Exists fun result => Exists fun after => b.Calls (op, result) after := by
  have valid : b.Valid := run.invariant (fun _ _ _ valid calls => Calls.valid valid calls)
    (allocate_valid block)
  have simulated := run.simulation content id (fun _ _ _ valid calls => Calls.valid valid calls)
    (fun _ _ _ valid calls => Calls.step valid calls) (allocate_valid block)
  rw [allocate_content, List.map_id] at simulated
  refine ⟨simulated, valid.layout, valid.getSize_eq, ?_⟩
  intro op allowed
  rcases valid.call_refines op allowed with ⟨result, after, returned, _⟩
  exact ⟨result, after, allowed, returned⟩

/-- A run on four bytes that opens region B, fills it by a commit and reads
across both regions. -/
theorem run_refines_fifo_four_bytes :
    Exists fun b => Run Calls (new.allocate [0, 0, 0, 0])
        [(.write [1, 2, 3, 4], .flag true), (.read 3, .bytes (some [1, 2, 3])), (.getSpace, .size 3),
          (.commit [5, 6], .done), (.read 2, .bytes (some [4, 5]))] b ∧
      Run Fifo.Step [] [(.write [1, 2, 3, 4], .flag true), (.read 3, .bytes (some [1, 2, 3])),
        (.getSpace, .size 3), (.commit [5, 6], .done), (.read 2, .bytes (some [4, 5]))] b.content ∧
      b.content = [6] := by
  have run : Run Calls (new.allocate [0, 0, 0, 0])
      [(.write [1, 2, 3, 4], .flag true), (.read 3, .bytes (some [1, 2, 3])), (.getSpace, .size 3),
        (.commit [5, 6], .done), (.read 2, .bytes (some [4, 5]))]
      { memory := [6, 6, 3, 4], allocated := true, bufferEnd := 4, regionAPtr := 0,
        regionASize := 1, regionBPtr := none, regionBSize := 0 } :=
    .cons ⟨trivial, rfl⟩ (.cons ⟨trivial, rfl⟩ (.cons ⟨trivial, rfl⟩
      (.cons ⟨by decide, rfl⟩ (.cons ⟨trivial, rfl⟩ (.refl _)))))
  exact ⟨_, run, (run_refines_fifo [0, 0, 0, 0] run).1, rfl⟩

end BipBuffer
end ServerTech
