import Mathlib.Algebra.Ring.Nat
import Mathlib.Algebra.Ring.Int.Defs
import Mathlib.Data.List.Nodup
import Mathlib.Data.List.Forall2
import Mathlib.Logic.Function.Basic
import ServerTech.Foundation.Block

namespace ServerTech
namespace Kcp

/-!
# Datagrams and connections of the server

`Server::recv` polls a few sockets bound to one port.  A datagram that arrives
on any of them belongs to the connection of its source address, which is
created when the source is seen for the first time, and is passed on as a
pointer to the socket's receive buffer and the receive size stored beside it.

The receive size is the weak point.  `UdpSocket` has two functions that
receive.  The one without an argument stores the size of what arrived.  The
one that also returns the source, which the server uses, does not, so the size
passed on is what the member held when the socket was made.  No constructor
initialises it, and it is an input of the model.
-/

/-! ## Addresses -/

/-- The source of a datagram: the four bytes of `sin_addr` and the port as
`ntohs` returns it. -/
structure Address where
  first : UInt8
  second : UInt8
  third : UInt8
  fourth : UInt8
  port : UInt16
  deriving DecidableEq, Repr

/-- One part of an address in decimal. -/
def decimal (byte : UInt8) : List Char :=
  Nat.toDigits 10 byte.toNat

/-- `inet_ntoa`. -/
def inetNtoa (address : Address) : List Char :=
  decimal address.first ++ '.' :: (decimal address.second ++ '.' ::
    (decimal address.third ++ '.' :: decimal address.fourth))

/-- The key of a connection. -/
abbrev ConnID : Type :=
  List Char × UInt16

def Address.connID (address : Address) : ConnID :=
  (inetNtoa address, address.port)

/-- The number a row of digits denotes. -/
def undecimal (digits : List Char) : Nat :=
  digits.foldl (fun value digit => 10 * value + (digit.toNat - 48)) 0

theorem undecimal_decimal (byte : UInt8) : undecimal (decimal byte) = byte.toNat := by
  have each : forall value : Fin 256, undecimal (Nat.toDigits 10 value.val) = value.val := by
    decide +kernel
  exact each ⟨byte.toNat, byte.toNat_lt⟩

theorem dot_not_mem_decimal (byte : UInt8) : '.' ∉ decimal byte := by
  have each : forall value : Fin 256, '.' ∉ Nat.toDigits 10 value.val := by decide +kernel
  exact each ⟨byte.toNat, byte.toNat_lt⟩

theorem decimal_injective {left right : UInt8} (same : decimal left = decimal right) :
    left = right := by
  apply UInt8.toNat_inj.mp
  rw [← undecimal_decimal left, ← undecimal_decimal right, same]

/-- Two lists with the same mark split alike at its first occurrence. -/
theorem append_mark_inj {α : Type} {mark : α} {left right leftRest rightRest : List α}
    (leftFree : mark ∉ left) (rightFree : mark ∉ right)
    (same : left ++ mark :: leftRest = right ++ mark :: rightRest) :
    left = right ∧ leftRest = rightRest := by
  induction left generalizing right with
  | nil =>
      cases right with
      | nil => exact ⟨rfl, (List.cons.inj same).2⟩
      | cons item right =>
          have here : mark = item := (List.cons.inj same).1
          exact absurd (List.mem_cons.mpr (.inl here)) rightFree
  | cons item left inductionHypothesis =>
      cases right with
      | nil =>
          have here : item = mark := (List.cons.inj same).1
          exact absurd (List.mem_cons.mpr (.inl here.symm)) leftFree
      | cons other right =>
          rcases List.cons.inj same with ⟨here, later⟩
          have parts := inductionHypothesis (fun member => leftFree (List.mem_cons_of_mem _ member))
            (fun member => rightFree (List.mem_cons_of_mem _ member)) later
          exact ⟨by rw [here, parts.1], parts.2⟩

/-- A part of an address ends at the first dot. -/
theorem decimal_dot_inj {left right : UInt8} {leftRest rightRest : List Char}
    (same : decimal left ++ '.' :: leftRest = decimal right ++ '.' :: rightRest) :
    left = right ∧ leftRest = rightRest := by
  rcases append_mark_inj (dot_not_mem_decimal left) (dot_not_mem_decimal right) same with
    ⟨digits, rest⟩
  exact ⟨decimal_injective digits, rest⟩

/-- Different sources have different keys. -/
theorem connID_injective {left right : Address} (same : left.connID = right.connID) :
    left = right := by
  have name : inetNtoa left = inetNtoa right := congrArg Prod.fst same
  have port : left.port = right.port := congrArg Prod.snd same
  rcases decimal_dot_inj name with ⟨first, rest⟩
  rcases decimal_dot_inj rest with ⟨second, rest⟩
  rcases decimal_dot_inj rest with ⟨third, rest⟩
  have fourth := decimal_injective rest
  cases left
  cases right
  simp only at first second third fourth port
  rw [first, second, third, fourth, port]

/-! ## Sockets -/

/-- `RECV_BUF_SIZE` of the datagram sockets. -/
def datagramBufSize : Nat := 1024 * 4

/-- What arrives at a socket. -/
structure Datagram where
  source : Address
  bytes : List UInt8
  deriving DecidableEq, Repr

/-- The receive fields of `UdpSocket`.  The size is the bit pattern of an
`int32_t`, which `getRecvSize` returns as a `uint32_t`. -/
structure UdpSocket where
  recvBuffer : List UInt8
  recvSize : UInt32
  remote : Address
  allocated : recvBuffer.length = datagramBufSize

namespace UdpSocket

/-- The receive buffer after it was cleared and `recvfrom` stored a datagram,
or nothing.  What does not fit is cut off. -/
def filled (bytes : List UInt8) : List UInt8 :=
  Block.overwrite (List.replicate datagramBufSize 0) 0 (bytes.take datagramBufSize)

theorem length_filled (bytes : List UInt8) : (filled bytes).length = datagramBufSize := by
  rw [filled, Block.length_overwrite, List.length_replicate]
  rw [Nat.zero_add, List.length_replicate, List.length_take]
  exact Nat.min_le_left _ _

/-- The return value of `recvfrom` for a datagram. -/
def stored (bytes : List UInt8) : Nat :=
  min bytes.length datagramBufSize

/-- `recv()`. -/
def recv (socket : UdpSocket) : Option Datagram -> UdpSocket
  | none => ⟨filled [], UInt32.ofNat (2 ^ 32 - 1), socket.remote, length_filled []⟩
  | some datagram =>
      ⟨filled datagram.bytes, UInt32.ofNat (stored datagram.bytes), datagram.source,
        length_filled datagram.bytes⟩

/-- `recv(addr)`: the size and the remote address stay as they are. -/
def recvAddr (socket : UdpSocket) : Option Datagram -> UdpSocket
  | none => ⟨filled [], socket.recvSize, socket.remote, length_filled []⟩
  | some datagram =>
      ⟨filled datagram.bytes, socket.recvSize, socket.remote, length_filled datagram.bytes⟩

/-- The `getRecvSize()` bytes at `getRecvBuffer()`.  There are none where the
size exceeds the buffer. -/
def denoted (socket : UdpSocket) : Option (List UInt8) :=
  Block.load socket.recvBuffer 0 socket.recvSize.toNat

/-- What the buffer holds of a datagram that fits. -/
theorem take_filled {bytes : List UInt8} (fits : bytes.length ≤ datagramBufSize) :
    (filled bytes).take bytes.length = bytes := by
  have whole : bytes.take datagramBufSize = bytes := List.take_of_length_le fits
  have inside : 0 + bytes.length ≤ (List.replicate datagramBufSize (0 : UInt8)).length := by
    rw [Nat.zero_add, List.length_replicate]
    exact fits
  have written := Block.slice_overwrite (List.replicate datagramBufSize 0) inside
  rw [Block.slice, List.drop_zero] at written
  rw [filled, whole]
  exact written

/-- The pointer and the length denote the datagram exactly when the datagram
fits the buffer and the stored size is its length. -/
theorem denoted_eq_iff {socket : UdpSocket} {bytes : List UInt8}
    (buffer : socket.recvBuffer = filled bytes) :
    socket.denoted = some bytes <->
      bytes.length ≤ datagramBufSize ∧ socket.recvSize.toNat = bytes.length := by
  rw [denoted, buffer]
  constructor
  · intro loaded
    unfold Block.load at loaded
    by_cases inside : 0 + socket.recvSize.toNat ≤ (filled bytes).length
    · rw [if_pos inside] at loaded
      have length : socket.recvSize.toNat = bytes.length := by
        rw [← Option.some.inj loaded, Block.length_slice _ inside]
      rw [Nat.zero_add, length_filled, length] at inside
      exact ⟨inside, length⟩
    · rw [if_neg inside] at loaded
      cases loaded
  · rintro ⟨fits, length⟩
    rw [length, Block.load_eq_some, Block.slice, List.drop_zero, take_filled fits]
    rw [Nat.zero_add, length_filled]
    exact fits

end UdpSocket

/-! ## Connections -/

/-- The connections by key.  A connection is named by the number of those
created before it. -/
structure ConnMap where
  entries : List (ConnID × Nat)
  keys : (entries.map Prod.fst).Nodup
  numbers : entries.map Prod.snd = List.range entries.length

namespace ConnMap

def empty : ConnMap :=
  ⟨[], List.nodup_nil, rfl⟩

/-- The connection is registered under the key. -/
def Registered (connections : ConnMap) (id : ConnID) (connection : Nat) : Prop :=
  (id, connection) ∈ connections.entries

/-- `emplace` of a new connection under a key that is not there. -/
def emplace (connections : ConnMap) (id : ConnID)
    (absent : id ∉ connections.entries.map Prod.fst) : ConnMap where
  entries := connections.entries ++ [(id, connections.entries.length)]
  keys := by
    rw [List.map_append, List.map_singleton]
    exact List.nodup_append.mpr ⟨connections.keys, List.nodup_singleton _, by
      intro left leftMember right rightMember same
      rw [same, List.mem_singleton.mp rightMember] at leftMember
      exact absent leftMember⟩
  numbers := by
    rw [List.map_append, connections.numbers, List.length_append, List.length_singleton,
      List.range_succ]
    rfl

/-- `findConn`: the connection of a key, created if there is none. -/
def findConn (connections : ConnMap) (id : ConnID) : Nat × ConnMap :=
  match found : connections.entries.find? (fun entry => decide (entry.1 = id)) with
  | some entry => (entry.2, connections)
  | none =>
      (connections.entries.length, connections.emplace id (by
        intro member
        rcases List.mem_map.mp member with ⟨entry, inside, same⟩
        exact List.find?_eq_none.mp found entry inside (decide_eq_true same)))

/-- A key has at most one connection. -/
theorem registered_unique (connections : ConnMap) {id : ConnID} {first second : Nat}
    (left : connections.Registered id first) (right : connections.Registered id second) :
    first = second := by
  have same := List.inj_on_of_nodup_map connections.keys left right rfl
  exact congrArg Prod.snd same

/-- A connection has at most one key. -/
theorem registered_key (connections : ConnMap) {first second : ConnID} {connection : Nat}
    (left : connections.Registered first connection)
    (right : connections.Registered second connection) : first = second := by
  have distinct : (connections.entries.map Prod.snd).Nodup := by
    rw [connections.numbers]
    exact List.nodup_range
  have same := List.inj_on_of_nodup_map distinct left right rfl
  exact congrArg Prod.fst same

/-- The connection found is registered, and no other one is taken away. -/
theorem findConn_registered (connections : ConnMap) (id : ConnID) :
    (connections.findConn id).2.Registered id (connections.findConn id).1 ∧
      forall other connection, connections.Registered other connection ->
        (connections.findConn id).2.Registered other connection := by
  unfold findConn
  split
  · rename_i entry found
    refine ⟨?_, fun _ _ registered => registered⟩
    have selected := List.find?_some found
    have key : entry.1 = id := of_decide_eq_true selected
    have member := List.mem_of_find?_eq_some found
    rw [← key]
    exact member
  · exact ⟨List.mem_append_right _ (List.mem_singleton_self _),
      fun _ _ registered => List.mem_append_left _ registered⟩

end ConnMap

/-! ## The server -/

/-- `FD_PER_THREAD`. -/
def fdPerThread : Nat := 4

/-- A call of `recv_data`: the connection, and the bytes its pointer and length
denote. -/
structure RecvData where
  connection : Nat
  data : Option (List UInt8)
  deriving DecidableEq, Repr

/-- The sockets and the connections of the server, with the calls of
`recv_data` it has made. -/
structure Server where
  fds : Fin fdPerThread -> UdpSocket
  connections : ConnMap
  calls : List RecvData

/-- A socket is asked for a datagram and has one or not. -/
structure Poll where
  fd : Fin fdPerThread
  result : Option Datagram
  deriving DecidableEq, Repr

namespace Server

def new (fds : Fin fdPerThread -> UdpSocket) : Server :=
  ⟨fds, ConnMap.empty, []⟩

/-- The turn of one socket in the loop of `Server::recv`. -/
def poll (server : Server) (turn : Poll) : Server :=
  let socket := (server.fds turn.fd).recvAddr turn.result
  let fds := Function.update server.fds turn.fd socket
  match turn.result with
  | none => { server with fds := fds }
  | some datagram =>
      if UdpSocket.stored datagram.bytes = 0 then { server with fds := fds }
      else
        let found := server.connections.findConn datagram.source.connID
        ⟨fds, found.2, server.calls ++ [⟨found.1, socket.denoted⟩]⟩

/-- Turns of the sockets in any order. -/
def serve (server : Server) (turns : List Poll) : Server :=
  turns.foldl poll server

end Server

/-- A non-empty datagram on a socket. -/
structure Arrival where
  fd : Fin fdPerThread
  datagram : Datagram

/-- The non-empty datagram of a turn. -/
def Poll.arrival (turn : Poll) : Option Arrival :=
  match turn.result with
  | none => none
  | some datagram => if datagram.bytes = [] then none else some ⟨turn.fd, datagram⟩

/-- The non-empty datagrams of a sequence of turns. -/
def arrivals (turns : List Poll) : List Arrival :=
  turns.filterMap Poll.arrival

/-- The call is on the connection of the datagram's source, and it denotes the
datagram exactly when the size the socket started with is the right one. -/
structure Served (fds : Fin fdPerThread -> UdpSocket) (connections : ConnMap) (arrival : Arrival)
    (call : RecvData) : Prop where
  registered : connections.Registered arrival.datagram.source.connID call.connection
  intact : call.data = some arrival.datagram.bytes <->
    arrival.datagram.bytes.length ≤ datagramBufSize ∧
      (fds arrival.fd).recvSize.toNat = arrival.datagram.bytes.length

theorem recvAddr_recvSize (socket : UdpSocket) (result : Option Datagram) :
    (socket.recvAddr result).recvSize = socket.recvSize := by
  cases result with
  | none => rfl
  | some datagram => rfl

/-- A later registration takes nothing away from what was served. -/
theorem Served.mono {fds : Fin fdPerThread -> UdpSocket} {before after : ConnMap}
    {arrival : Arrival} {call : RecvData} (served : Served fds before arrival call)
    (grown : forall id connection, before.Registered id connection ->
      after.Registered id connection) : Served fds after arrival call :=
  ⟨grown _ _ served.registered, served.intact⟩

/-- The server after the given arrivals: no socket has another size than at
the start, and the calls are those the arrivals lead to. -/
structure Server.Log (fds : Fin fdPerThread -> UdpSocket) (past : List Arrival)
    (server : Server) : Prop where
  sizes : forall fd, (server.fds fd).recvSize = (fds fd).recvSize
  served : List.Forall₂ (Served fds server.connections) past server.calls

namespace Server

variable {fds : Fin fdPerThread -> UdpSocket} {past : List Arrival} {server : Server}

theorem poll_sizes (server : Server) (turn : Poll) (fd : Fin fdPerThread) :
    ((server.poll turn).fds fd).recvSize = (server.fds fd).recvSize := by
  have updated : (server.poll turn).fds =
      Function.update server.fds turn.fd ((server.fds turn.fd).recvAddr turn.result) := by
    unfold poll
    cases turn.result with
    | none => rfl
    | some datagram =>
        by_cases empty : UdpSocket.stored datagram.bytes = 0
        · simp only [if_pos empty]
        · simp only [if_neg empty]
  rw [updated]
  by_cases same : fd = turn.fd
  · rw [same, Function.update_self, recvAddr_recvSize]
  · rw [Function.update_of_ne same]

theorem stored_eq_zero_iff (bytes : List UInt8) : UdpSocket.stored bytes = 0 <-> bytes = [] := by
  have positive : 0 < datagramBufSize := by decide
  rw [← List.length_eq_zero_iff, UdpSocket.stored]
  omega

/-- A turn without a datagram, or with an empty one, makes no call. -/
theorem poll_silent (server : Server) {turn : Poll} (silent : turn.arrival = none) :
    (server.poll turn).connections = server.connections ∧
      (server.poll turn).calls = server.calls := by
  unfold Poll.arrival at silent
  unfold poll
  cases result : turn.result with
  | none => exact ⟨rfl, rfl⟩
  | some datagram =>
      rw [result] at silent
      by_cases empty : datagram.bytes = []
      · simp only [if_pos ((stored_eq_zero_iff _).mpr empty), and_self]
      · simp only [if_neg empty] at silent
        cases silent

/-- A turn with a datagram makes one call, on the connection of its source. -/
theorem poll_arrival (server : Server) {turn : Poll} {arrival : Arrival}
    (arrived : turn.arrival = some arrival) :
    Exists fun call => (server.poll turn).calls = server.calls ++ [call] ∧
      Served server.fds (server.poll turn).connections arrival call ∧
      forall id connection, server.connections.Registered id connection ->
        (server.poll turn).connections.Registered id connection := by
  unfold Poll.arrival at arrived
  unfold poll
  cases result : turn.result with
  | none =>
      rw [result] at arrived
      cases arrived
  | some datagram =>
      rw [result] at arrived
      by_cases empty : datagram.bytes = []
      · simp only [if_pos empty] at arrived
        cases arrived
      · simp only [if_neg empty] at arrived
        cases arrived
        have found := server.connections.findConn_registered datagram.source.connID
        simp only [if_neg (mt (stored_eq_zero_iff _).mp empty)]
        refine ⟨_, rfl, ⟨found.1, ?_⟩, found.2⟩
        exact UdpSocket.denoted_eq_iff rfl

theorem poll_log (log : Log fds past server) (turn : Poll) :
    Log fds (past ++ arrivals [turn]) (server.poll turn) := by
  refine ⟨fun fd => (poll_sizes server turn fd).trans (log.sizes fd), ?_⟩
  cases arrived : turn.arrival with
  | none =>
      rcases poll_silent server arrived with ⟨connections, calls⟩
      rw [arrivals, List.filterMap_cons_none arrived, List.filterMap_nil, List.append_nil,
        connections, calls]
      exact log.served
  | some arrival =>
      rcases poll_arrival server arrived with ⟨call, calls, served, grown⟩
      rw [arrivals, List.filterMap_cons_some arrived, List.filterMap_nil, calls]
      have earlier := log.served.imp fun _ _ old => old.mono grown
      have latest : Served fds (server.poll turn).connections arrival call := by
        refine ⟨served.registered, ?_⟩
        rw [← log.sizes]
        exact served.intact
      exact List.rel_append earlier (.cons latest .nil)

theorem serve_log (log : Log fds past server) (turns : List Poll) :
    Log fds (past ++ arrivals turns) (server.serve turns) := by
  induction turns generalizing past server with
  | nil =>
      rw [arrivals, List.filterMap_nil, List.append_nil]
      exact log
  | cons turn turns inductionHypothesis =>
      have later := inductionHypothesis (poll_log log turn)
      rw [List.append_assoc, arrivals, arrivals, ← List.filterMap_append] at later
      exact later

/-- Whatever datagrams arrive on whatever sockets, each non-empty one leads to
one call, in order, on the one connection registered for its source.  The call
denotes the datagram exactly when the datagram fits the buffer and the size
that the socket has held since it was made is its length. -/
theorem serve_served (fds : Fin fdPerThread -> UdpSocket) (turns : List Poll) :
    List.Forall₂ (Served fds ((new fds).serve turns).connections) (arrivals turns)
      ((new fds).serve turns).calls ∧
    (forall source first second,
      ((new fds).serve turns).connections.Registered source first ->
      ((new fds).serve turns).connections.Registered source second -> first = second) ∧
    (forall (first second : Address) connection,
      ((new fds).serve turns).connections.Registered first.connID connection ->
      ((new fds).serve turns).connections.Registered second.connID connection ->
      first = second) := by
  have start : Log fds [] (new fds) := ⟨fun _ => rfl, .nil⟩
  refine ⟨?_, ?_, ?_⟩
  · exact (serve_log start turns).served
  · intro source first second left right
    exact ConnMap.registered_unique _ left right
  · intro first second connection left right
    exact connID_injective (ConnMap.registered_key _ left right)

/-- The first socket of the server. -/
def firstFd : Fin fdPerThread :=
  ⟨0, by decide⟩

/-- Two datagrams of different lengths from one peer on one socket. -/
def twoDatagrams : List Poll :=
  [⟨firstFd, some ⟨⟨10, 0, 0, 1, 5000⟩, [7]⟩⟩,
    ⟨firstFd, some ⟨⟨10, 0, 0, 1, 5000⟩, [7, 8]⟩⟩]

/-- Whatever the size of the socket is, one of the two calls does not denote
its datagram. -/
theorem serve_mangles :
    ¬ Exists fun fds : Fin fdPerThread -> UdpSocket =>
      List.Forall₂ (fun (arrival : Arrival) (call : RecvData) =>
        call.data = some arrival.datagram.bytes) (arrivals twoDatagrams)
        ((new fds).serve twoDatagrams).calls := by
  rintro ⟨fds, intact⟩
  have start : Log fds [] (new fds) := ⟨fun _ => rfl, .nil⟩
  have served := (serve_log start twoDatagrams).served
  have list : arrivals twoDatagrams = [⟨firstFd, ⟨⟨10, 0, 0, 1, 5000⟩, [7]⟩⟩,
      ⟨firstFd, ⟨⟨10, 0, 0, 1, 5000⟩, [7, 8]⟩⟩] := rfl
  rw [List.nil_append, list] at served
  rw [list] at intact
  cases served with
  | cons firstServed rest =>
      cases rest with
      | cons secondServed _ =>
          rcases List.forall₂_cons.mp intact with ⟨firstIntact, others⟩
          have secondIntact := (List.forall₂_cons.mp others).1
          have one := (firstServed.intact.mp firstIntact).2
          have two := (secondServed.intact.mp secondIntact).2
          exact absurd (one.symm.trans two) (by decide)

end Server

end Kcp
end ServerTech
