import Mathlib.Data.Finset.Sort
import ServerTech.Iocp.Socket

namespace ServerTech
namespace Iocp

open Transition

/-!
# Closing all sockets

`CloseAll` copies the list of sockets, because `Disconnect` takes a socket off
that list, and calls `Disconnect` on every element of the copy.  The copy is a
vector whose room is reserved and whose elements are then assigned with
`operator[]`.  Reserving room makes no elements, so the vector stays empty
whatever is stored in that room, and the second loop has nothing to walk over.

Sockets are named by their addresses, which order the list.  `CloseAll` is run
by one thread while no other one touches the sockets.
-/

/-! ## The copy -/

/-- A `std::vector`: the memory it owns, and how many elements it has in it. -/
structure StdVector (α : Type) where
  storage : List α
  size : Nat
  fits : size ≤ storage.length

namespace StdVector

variable {α : Type}

/-- An empty vector after `reserve(count)`, in memory that held `memory`. -/
def reserved (memory : Nat -> α) (count : Nat) : StdVector α where
  storage := (List.range count).map memory
  size := 0
  fits := Nat.zero_le _

/-- `vector[index] = value`.  With `hardened` the index is checked against the
number of elements, and the program ends when it is too big; without it only
memory the vector does not own is out of reach. -/
def assign (hardened : Bool) (vector : StdVector α) (index : Nat) (value : α) : Option (StdVector α) :=
  if hardened ∧ vector.size ≤ index then none
  else if vector.storage.length ≤ index then none
  else
    some
      { storage := vector.storage.set index value
        size := vector.size
        fits := vector.fits.trans (Nat.le_of_eq List.length_set.symm) }

/-- The loop `toKill[i++] = it`. -/
def assignAll (hardened : Bool) (vector : StdVector α) (index : Nat) : List α -> Option (StdVector α)
  | [] => some vector
  | value :: values =>
      (vector.assign hardened index value).bind fun stored =>
        stored.assignAll hardened (index + 1) values

/-- What a loop over the vector comes to. -/
def elements (vector : StdVector α) : List α :=
  vector.storage.take vector.size

/-- Assigning to elements makes no new ones. -/
theorem size_assignAll {hardened : Bool} {vector after : StdVector α} {index : Nat} {values : List α}
    (assigned : vector.assignAll hardened index values = some after) : after.size = vector.size := by
  induction values generalizing vector index with
  | nil =>
      cases assigned
      rfl
  | cons value values inductionHypothesis =>
      rcases Option.bind_eq_some_iff.mp assigned with ⟨stored, first, rest⟩
      refine (inductionHypothesis rest).trans ?_
      unfold assign at first
      split at first
      · cases first
      · split at first
        · cases first
        · cases first
          rfl

end StdVector

/-! ## Disconnecting one socket -/

namespace Socket

/-- `Disconnect` up to its last test, for a connected socket. -/
def leave (s : Socket) : Socket :=
  { s with connected := false, registered := false, disconnects := s.disconnects + 1 }

/-- `Delete`.  It marks the socket as deleted before its own call of
`Disconnect`, which therefore does not call `Delete` again. -/
def delete (s : Socket) : Socket :=
  if s.deleted then
    let left := if s.connected then s.leave else s
    { left with closes := left.closes + 1 }
  else s

/-- `Disconnect`. -/
def disconnect (s : Socket) : Socket :=
  if s.connected then
    if s.leave.deleted then s.leave else s.leave.delete
  else s

/-- Behind its guard `Delete` would need a deleted socket, so `Disconnect` ends
where it has taken the socket off the list. -/
theorem disconnect_eq (s : Socket) : s.disconnect = if s.connected then s.leave else s := by
  unfold disconnect
  by_cases deleted : s.leave.deleted
  · rw [if_pos deleted]
  · rw [if_neg deleted, delete, if_neg deleted]

/-- One thread alone that calls `Disconnect` gets to the socket it computes. -/
theorem run_disconnect {s : Socket} {thread : Nat} (idle : s.stack thread = []) :
    Exists fun count => Run (Stepping next) s
      (.call thread .disconnect :: List.replicate count (.step thread true)) s.disconnect := by
  have quiet : Function.update s.stack thread [] = s.stack := idle ▸ Function.update_eq_self thread s.stack
  rw [disconnect_eq]
  by_cases connected : s.connected
  · rw [if_pos connected]
    by_cases deleted : s.deleted
    · refine ⟨5, .of_execute ?_⟩
      simp [execute, next, start, idle, Entry.ops, Entry.insideBurst, perform, setStack, connected,
        deleted, leave, quiet]
    · refine ⟨6, .of_execute ?_⟩
      simp [execute, next, start, idle, Entry.ops, Entry.insideBurst, perform, setStack, connected,
        deleted, leave, quiet]
  · rw [if_neg connected]
    refine ⟨1, .of_execute ?_⟩
    simp only [Bool.not_eq_true] at connected
    cases s
    simp_all [execute, next, start, Entry.ops, Entry.insideBurst, perform, setStack]

end Socket

/-! ## The manager -/

/-- The sockets by address, the list of the manager, and the calls of
`Disconnect` so far. -/
structure SocketMgr where
  sockets : Nat -> Socket
  socketList : Finset Nat
  calls : List Nat

namespace SocketMgr

/-- `Disconnect` on the socket at an address, with the `DelSocket` in it. -/
def disconnect (m : SocketMgr) (address : Nat) : SocketMgr where
  sockets := Function.update m.sockets address (m.sockets address).disconnect
  socketList := if (m.sockets address).connected then m.socketList.erase address else m.socketList
  calls := m.calls ++ [address]

/-- The loop over the copy. -/
def disconnectAll (m : SocketMgr) (toKill : List Nat) : SocketMgr :=
  toKill.foldl disconnect m

/-- `CloseAll`.  A `std::set` is walked in the order of the addresses. -/
def closeAll (hardened : Bool) (memory : Nat -> Nat) (m : SocketMgr) : Option SocketMgr :=
  ((StdVector.reserved memory m.socketList.card).assignAll hardened 0 m.socketList.sort).map
    fun toKill => m.disconnectAll toKill.elements

/-- Every socket on the list has been disconnected by one call of its own, and
the list is empty. -/
structure Reaches (m after : SocketMgr) : Prop where
  once : forall address, address ∈ m.socketList ->
    after.calls.count address = m.calls.count address + 1
  emptied : after.socketList = ∅
  disconnected : forall address, address ∈ m.socketList ->
    (after.sockets address).connected = false

/-! ## What the second loop would do to a copy -/

theorem disconnect_other (m : SocketMgr) {address other : Nat} (different : other ≠ address) :
    (m.disconnect address).sockets other = m.sockets other :=
  Function.update_of_ne different _ _

theorem disconnect_connected (m : SocketMgr) (address other : Nat) :
    ((m.disconnect address).sockets other).connected =
      if other = address then false else (m.sockets other).connected := by
  by_cases same : other = address
  · have left : (m.disconnect address).sockets address = (m.sockets address).disconnect :=
      Function.update_self _ _ _
    rw [if_pos same, same, left, Socket.disconnect_eq]
    by_cases connected : (m.sockets address).connected
    · rw [if_pos connected]
      rfl
    · rw [if_neg connected]
      exact (Bool.not_eq_true _).mp connected
  · rw [if_neg same, m.disconnect_other same]

/-- The loop over different connected sockets calls `Disconnect` on each of
them once and takes each of them off the list. -/
theorem disconnectAll_spec (m : SocketMgr) {toKill : List Nat} (nodup : toKill.Nodup)
    (connected : forall address, address ∈ toKill -> (m.sockets address).connected = true) :
    (m.disconnectAll toKill).calls = m.calls ++ toKill ∧
      (m.disconnectAll toKill).socketList = m.socketList \ toKill.toFinset ∧
      forall address, ((m.disconnectAll toKill).sockets address).connected =
        if address ∈ toKill then false else (m.sockets address).connected := by
  induction toKill generalizing m with
  | nil =>
      refine ⟨(List.append_nil _).symm, (Finset.sdiff_empty).symm, ?_⟩
      intro address
      rw [if_neg List.not_mem_nil]
      rfl
  | cons first rest inductionHypothesis =>
      rcases List.nodup_cons.mp nodup with ⟨fresh, nodupRest⟩
      have connectedRest : forall address, address ∈ rest ->
          ((m.disconnect first).sockets address).connected = true := by
        intro address member
        have different : address ≠ first := fun same => fresh (same ▸ member)
        rw [m.disconnect_other different]
        exact connected address (List.mem_cons_of_mem _ member)
      rcases inductionHypothesis (m.disconnect first) nodupRest connectedRest with
        ⟨calls, list, flags⟩
      refine ⟨?_, ?_, ?_⟩
      · refine calls.trans ?_
        rw [disconnect, List.append_assoc, List.singleton_append]
      · refine list.trans ?_
        rw [disconnect, if_pos (connected first List.mem_cons_self), List.toFinset_cons,
          Finset.sdiff_insert, Finset.erase_sdiff_comm]
      · intro address
        refine (flags address).trans ?_
        rw [disconnect_connected]
        by_cases inside : address ∈ rest
        · rw [if_pos inside, if_pos (List.mem_cons_of_mem _ inside)]
        · rw [if_neg inside]
          by_cases same : address = first
          · rw [if_pos same, if_pos (same ▸ List.mem_cons_self)]
          · rw [if_neg same, if_neg (fun member => (List.mem_cons.mp member).elim same inside)]

/-- With a complete copy every socket would be reached: that `Disconnect`
removes entries from the list does not disturb the walk. -/
theorem disconnectAll_copy_reaches (m : SocketMgr)
    (connected : forall address, address ∈ m.socketList -> (m.sockets address).connected = true) :
    m.Reaches (m.disconnectAll m.socketList.sort) := by
  have nodup := m.socketList.sort_nodup (· ≤ ·)
  rcases m.disconnectAll_spec nodup (fun address member =>
    connected address ((Finset.mem_sort _).mp member)) with ⟨calls, list, flags⟩
  refine ⟨?_, ?_, ?_⟩
  · intro address member
    rw [calls, List.count_append,
      List.count_eq_one_of_mem nodup ((Finset.mem_sort (· ≤ ·)).mpr member)]
  · rw [list, Finset.sort_toFinset, Finset.sdiff_self]
  · intro address member
    rw [flags, if_pos ((Finset.mem_sort (· ≤ ·)).mpr member)]

/-! ## What the second loop does -/

/-- Reserved room has no elements, whatever is assigned to it. -/
theorem closeAll_eq {hardened : Bool} {memory : Nat -> Nat} {m after : SocketMgr}
    (closed : m.closeAll hardened memory = some after) : after = m := by
  rcases Option.map_eq_some_iff.mp closed with ⟨toKill, assigned, rfl⟩
  have size : toKill.size = 0 := StdVector.size_assignAll assigned
  rw [StdVector.elements, size, List.take_zero]
  rfl

/-- `CloseAll` reaches every socket exactly when there is none, with and
without a checked `operator[]`, and whatever the reserved memory held. -/
theorem closeAll_reaches_iff (hardened : Bool) (memory : Nat -> Nat) (m : SocketMgr) :
    (Exists fun after => m.closeAll hardened memory = some after ∧ m.Reaches after) <->
      m.socketList = ∅ := by
  constructor
  · rintro ⟨after, closed, reaches⟩
    rw [← reaches.emptied, closeAll_eq closed]
  · intro empty
    refine ⟨m, ?_, ?_⟩
    · rw [closeAll, empty, Finset.sort_empty]
      rfl
    · constructor
      · intro address member
        rw [empty] at member
        exact absurd member (Finset.notMem_empty address)
      · exact empty
      · intro address member
        rw [empty] at member
        exact absurd member (Finset.notMem_empty address)

/-- One connected socket at the address 4096. -/
def single : SocketMgr where
  sockets := fun _ => { Socket.new [] with connected := true, registered := true }
  socketList := {4096}
  calls := []

/-- A single registered socket is still connected after `CloseAll`. -/
theorem closeAll_single :
    ¬ forall m : SocketMgr,
      (forall address, address ∈ m.socketList -> (m.sockets address).connected = true) ->
      Exists fun after => m.closeAll false (fun _ => 0) = some after ∧ m.Reaches after := by
  intro claim
  rcases claim single (fun _ _ => rfl) with ⟨after, closed, reaches⟩
  have left := reaches.disconnected 4096 (Finset.mem_singleton_self 4096)
  rw [closeAll_eq closed] at left
  cases left

end SocketMgr
end Iocp
end ServerTech
