import ServerTech.Foundation.Fragmenting
import ServerTech.Foundation.Reassembly
import ServerTech.Kcp.Windows
import ServerTech.Kcp.Wire

namespace ServerTech
namespace Kcp

open Fragmenting (Messages)
open Reassembly (Genuine Arrived)

/-!
# Two KCP endpoints and a network

Two endpoints of one conversation use the whole interface in any order.  The
network keeps every datagram that was ever handed to it.  A datagram may arrive
at the other side at any time, more than once, out of order or never.  Nothing
else arrives.

For every direction there is a log: the pieces of data that the sender has
numbered, in order.  The invariant says that everything that carries a number
carries the piece of the log with that number, that the receiver has taken a
front part of the log, and that the sender keeps every piece until it has
arrived.
-/

/-! ## The system -/

/-- The two sides. -/
inductive Side
  | left
  | right
  deriving DecidableEq, Repr

/-- The opposite side. -/
def Side.other : Side -> Side
  | .left => .right
  | .right => .left

/-- An endpoint: its control block, the buffers that `ikcp_send` has accepted,
each as far as it was accepted, and what the calls of `ikcp_recv` have taken. -/
structure Endpoint where
  kcp : Ikcpcb
  accepted : List (List UInt8)
  received : List (List UInt8)
  deriving DecidableEq, Repr

/-- Two endpoints, and all datagrams that each has handed to the network. -/
structure Session where
  endpoint : Side -> Endpoint
  wire : Side -> List (List UInt8)

/-- The datagrams a call hands over. -/
def IkcpCall.output (kcp : Ikcpcb) : IkcpCall -> List (List UInt8)
  | .update current => (ikcpUpdate kcp current).2.output
  | .flush => (ikcpFlush kcp).2.output
  | _ => []

/-- What a call accepts for sending. -/
def IkcpCall.accepts (kcp : Ikcpcb) : IkcpCall -> List (List UInt8)
  | .send buffer =>
      if 0 ≤ (ikcpSend kcp buffer).2 then [buffer.take (ikcpSend kcp buffer).2.toNat] else []
  | _ => []

/-- What a call takes from the receive queue. -/
def IkcpCall.receives (kcp : Ikcpcb) : IkcpCall -> List (List UInt8)
  | .recv len => if 0 ≤ len ∧ 0 ≤ (ikcpRecv kcp len).2.1 then [(ikcpRecv kcp len).2.2] else []
  | _ => []

/-- Only datagrams on the wire arrive. -/
def IkcpCall.Possible (wire : List (List UInt8)) : IkcpCall -> Prop
  | .input data => data ∈ wire
  | _ => True

instance (wire : List (List UInt8)) : (call : IkcpCall) -> Decidable (call.Possible wire)
  | .input data => inferInstanceAs (Decidable (data ∈ wire))
  | .send _ | .recv _ | .update _ | .flush | .setmtu _ | .interval _ | .nodelay .. | .wndsize .. =>
      isTrue trivial

/-- An endpoint after a call. -/
def Endpoint.perform (endpoint : Endpoint) (call : IkcpCall) : Endpoint where
  kcp := call.perform endpoint.kcp
  accepted := endpoint.accepted ++ call.accepts endpoint.kcp
  received := endpoint.received ++ call.receives endpoint.kcp

/-- A session after a call on one side. -/
def Session.act (session : Session) (side : Side) (call : IkcpCall) : Session where
  endpoint := Function.update session.endpoint side ((session.endpoint side).perform call)
  wire := Function.update session.wire side
    (session.wire side ++ call.output (session.endpoint side).kcp)

/-- One step of a session: a call on one side, which makes no fault. -/
def Session.next (session : Session) (event : Side × IkcpCall) : Option Session :=
  if event.2.Possible (session.wire event.1.other) ∧
      event.2.fault (session.endpoint event.1).kcp = false then
    some (session.act event.1 event.2)
  else none

/-- The steps of a session are the calls that are possible and make no fault. -/
theorem Session.next_eq_some {session after : Session} {side : Side} {call : IkcpCall}
    (stepped : session.next (side, call) = some after) :
    call.Possible (session.wire side.other) ∧ call.fault (session.endpoint side).kcp = false ∧
      after = session.act side call := by
  rw [Session.next] at stepped
  split at stepped
  · next possible =>
      cases stepped
      exact ⟨possible.1, possible.2, rfl⟩
  · cases stepped

/-- Two new endpoints of one conversation, each in streaming mode or not. -/
def Session.fresh (conv : UInt32) (stream : Side -> Int32) : Session where
  endpoint := fun side => ⟨{ ikcpCreate conv with stream := stream side }, [], []⟩
  wire := fun _ => []

/-- Neither side has come near half of all sequence numbers. -/
def Session.Early (session : Session) (_ : Side × IkcpCall) : Prop :=
  forall side, (session.endpoint side).kcp.sndNxt.toNat < 2147418112

instance (session : Session) (event : Side × IkcpCall) : Decidable (session.Early event) :=
  decidable_of_iff ((session.endpoint .left).kcp.sndNxt.toNat < 2147418112 ∧
      (session.endpoint .right).kcp.sndNxt.toNat < 2147418112)
    ⟨fun both side => match side with
      | .left => both.1
      | .right => both.2, fun early => ⟨early .left, early .right⟩⟩

/-! ## Pieces -/

/-- What a segment carries: its place in a message, and its data. -/
structure Piece where
  frg : UInt32
  data : List UInt8
  deriving DecidableEq, Repr

/-- The fragments behind this one. -/
def Piece.left (piece : Piece) : Nat :=
  piece.frg.toNat

/-- The piece of a segment. -/
def Ikcpseg.piece (seg : Ikcpseg) : Piece :=
  ⟨seg.frg, seg.data⟩

/-- The pieces of some segments. -/
def pieces (segments : List Ikcpseg) : List Piece :=
  segments.map Ikcpseg.piece

/-- A piece of a message of at most 128 pieces, with data that a head can count. -/
structure Modest (piece : Piece) : Prop where
  frg : piece.frg.toNat < 128
  data : piece.data.length < 2147483648

/-- The number has arrived at an endpoint. -/
abbrev HasArrived (kcp : Ikcpcb) (number : Nat) : Prop :=
  Arrived kcp.rcvNxt.toNat ((numbers kcp.rcvBuf).map UInt32.toNat) number

/-! ## The invariant -/

/-- A segment of a send buffer that carries a piece of the log. -/
structure Carrying (conv : UInt32) (log : List Piece) (seg : Ikcpseg) : Prop where
  conversation : seg.conv = conv
  push : seg.cmd = ikcpCmdPush
  genuine : Genuine log seg.sn.toNat seg.piece

/-- A send queue and a send buffer with the log of the pieces numbered so far.
`arrived` says which numbers the peer has. -/
structure SendLog (conv : UInt32) (stream : Int32) (log : List Piece) (arrived : Nat -> Prop)
    (sndNxt : UInt32) (sndBuf sndQueue : List Ikcpseg) (accepted : List (List UInt8)) : Prop where
  small : log.length < 2147483648
  next : sndNxt.toNat = log.length
  buffer : forall seg, seg ∈ sndBuf -> Carrying conv log seg
  modest : forall piece, piece ∈ log ++ pieces sndQueue -> Modest piece
  single : stream ≠ 0 -> forall piece, piece ∈ log ++ pieces sndQueue -> piece.left = 0
  messages : Exists fun units =>
    Messages Piece.left Piece.data units (log ++ pieces sndQueue) ∧
      units.flatten = accepted.flatten ∧ (stream = 0 -> units = accepted)
  held : forall number, number < log.length ->
    number ∈ (numbers sndBuf).map UInt32.toNat ∨ arrived number

/-- What an endpoint sends. -/
abbrev Outgoing (conv : UInt32) (stream : Int32) (log : List Piece) (arrived : Nat -> Prop)
    (kcp : Ikcpcb) (accepted : List (List UInt8)) : Prop :=
  SendLog conv stream log arrived kcp.sndNxt kcp.sndBuf kcp.sndQueue accepted

/-- A receive queue, a receive buffer and a list of acknowledges with the log
of the pieces that the peer has numbered so far. -/
structure ReceiveLog (log : List Piece) (rcvNxt : UInt32) (rcvBuf rcvQueue : List Ikcpseg)
    (acklist : List (UInt32 × UInt32)) (received : List (List UInt8)) : Prop where
  small : log.length < 2147483648
  expected : rcvNxt.toNat ≤ log.length
  buffer : forall seg, seg ∈ rcvBuf -> Genuine log seg.sn.toNat seg.piece
  taken : Exists fun consumed =>
    consumed ++ pieces rcvQueue = log.take rcvNxt.toNat ∧
      Messages Piece.left Piece.data received consumed
  acks : forall sn, sn ∈ acklist.map Prod.fst ->
    Arrived rcvNxt.toNat ((numbers rcvBuf).map UInt32.toNat) sn.toNat

/-- What an endpoint receives. -/
abbrev Incoming (log : List Piece) (kcp : Ikcpcb) (received : List (List UInt8)) : Prop :=
  ReceiveLog log kcp.rcvNxt kcp.rcvBuf kcp.rcvQueue kcp.acklist received

/-- What a segment on the wire says, when an endpoint with this log and this
control block has sent it. -/
structure Passing (conv : UInt32) (log : List Piece) (kcp : Ikcpcb) (seg : Ikcpseg) : Prop where
  wirable : Wirable conv seg
  narrow : seg.cmd.toNat < 256
  una : seg.una.toNat ≤ kcp.rcvNxt.toNat
  ack : seg.cmd = ikcpCmdAck -> HasArrived kcp seg.sn.toNat
  push : seg.cmd = ikcpCmdPush -> seg.frg.toNat < 256 ∧ Genuine log seg.sn.toNat seg.piece

/-- Both directions are in order, with a log for each side. -/
structure Coherent (conv : UInt32) (stream : Side -> Int32) (log : Side -> List Piece)
    (session : Session) : Prop where
  sane : forall side, Sane (session.endpoint side).kcp
  conversation : forall side, (session.endpoint side).kcp.conv = conv
  mode : forall side, (session.endpoint side).kcp.stream = stream side
  outgoing : forall side, Outgoing conv (stream side) (log side)
    (HasArrived (session.endpoint side.other).kcp) (session.endpoint side).kcp
    (session.endpoint side).accepted
  incoming : forall side, Incoming (log side.other) (session.endpoint side).kcp
    (session.endpoint side).received
  wire : forall side datagram, datagram ∈ session.wire side ->
    datagram ≠ [] ∧ Holds (Passing conv (log side) (session.endpoint side).kcp) datagram

end Kcp
end ServerTech
