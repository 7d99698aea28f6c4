import Mathlib.Data.List.Forall2
import ServerTech.Kcp.Coherence
import ServerTech.Kcp.Frame

namespace ServerTech
namespace Kcp

open Fragmenting (Messages)
open Reassembly (Genuine Arrived)
open Transition

/-!
# What a KCP session delivers

Both directions of a session stay in order, whatever the endpoints call and
whatever the network loses, repeats or delays, as long as no side comes near
half of all sequence numbers.  So what one side receives is always a front part
of what the other side has sent.  In streaming mode this is so for the bytes,
and otherwise for the messages, each of them whole.  Nothing is lost either:
when a sender has nothing left to send, the receiver has everything.
-/

/-! ## One call -/

section

variable {conv : UInt32} {stream : Int32} {log inLog : List Piece} {arrived : Nat -> Prop}

/-- A call that numbers nothing and hands nothing over. -/
theorem Sent.quiet {kcp after : Ikcpcb} {accepted received : List (List UInt8)}
    (outgoing : Outgoing conv stream log arrived after accepted)
    (incoming : Incoming inLog after received) (grows : Grows kcp after) :
    Sent conv stream log inLog arrived kcp after accepted received [] [] where
  outgoing := by
    rw [List.append_nil]
    exact outgoing
  incoming := incoming
  grows := grows
  output := fun _ member => nomatch member

/-- Every call keeps both directions in order. -/
theorem perform_coherent {kcp : Ikcpcb} {accepted received wire units : List (List UInt8)}
    {ahead : List Piece} (call : IkcpCall) (sane : Sane kcp) (conversation : kcp.conv = conv)
    (mode : kcp.stream = stream) (early : kcp.sndNxt.toNat < 2147418112)
    (outgoing : Outgoing conv stream log arrived kcp accepted)
    (incoming : Incoming inLog kcp received)
    (whole : Messages Piece.left Piece.data units (inLog ++ ahead))
    (modest : forall piece, piece ∈ inLog -> Modest piece)
    (heard : forall datagram, datagram ∈ wire -> forall seg, seg ∈ heardSegs conv datagram ->
      Heard log inLog arrived seg)
    (possible : call.Possible wire) :
    Exists fun more => Sent conv stream log inLog arrived kcp (call.perform kcp)
      (accepted ++ call.accepts kcp) (received ++ call.receives kcp) (call.output kcp) more := by
  have none_ : forall list : List (List UInt8), list ++ [] = list := List.append_nil
  have quietly {after : Ikcpcb} (sending : Outgoing conv stream log arrived after accepted)
      (receiving : Incoming inLog after received) (grows : Grows kcp after) :
      Exists fun more => Sent conv stream log inLog arrived kcp after (accepted ++ [])
        (received ++ []) [] more := by
    rw [none_, none_]
    exact ⟨[], .quiet sending receiving grows⟩
  cases call with
  | send buffer =>
      have same : received ++ (IkcpCall.send buffer).receives kcp = received := none_ _
      have taken : Incoming inLog (ikcpSend kcp buffer).1 received ∧
          Grows kcp (ikcpSend kcp buffer).1 := by
        have size := sane.tuned.mss_pos
        have unit := sane.tuned.unit
        rcases ikcpSend_spec kcp buffer (by omega) with refused | ⟨_, filled, _, taking, equal⟩
        · rw [refused]
          exact ⟨incoming, .refl _ _⟩
        · rw [equal]
          cases taking.extended <;> exact ⟨incoming, .refl _ _⟩
      rw [same]
      exact ⟨[], .quiet (send_coherent sane mode outgoing) taken.1 taken.2⟩
  | recv len =>
      have same : accepted ++ (IkcpCall.recv len).accepts kcp = accepted := none_ _
      rcases @recv_coherent _ _ _ _ _ _ _ _ len _ _ sane outgoing incoming whole modest with
        ⟨sent, taken, grows⟩
      rw [same]
      exact ⟨[], .quiet sent taken grows⟩
  | input data =>
      have right : forall seg, seg ∈ heardSegs kcp.conv data -> Heard log inLog arrived seg := by
        rw [conversation]
        exact heard data possible
      rcases input_coherent outgoing incoming right with ⟨sent, taken, grows⟩
      exact quietly sent taken grows
  | flush =>
      rcases flush_coherent sane conversation early outgoing incoming with ⟨more, sent⟩
      rw [← none_ accepted, ← none_ received] at sent
      exact ⟨more, sent⟩
  | update current =>
      rcases ikcpUpdate_cases kcp current with ⟨updated, tsFlush, _, flushed | waited⟩
      · have clocked :
            Sane { kcp with current := current, updated := updated, tsFlush := tsFlush } :=
          ⟨sane.sending, sane.receiving, sane.tuned⟩
        rcases flush_coherent clocked conversation early outgoing incoming with ⟨more, sent⟩
        rw [← flushed, ← none_ accepted, ← none_ received] at sent
        exact ⟨more, sent.outgoing, sent.incoming, sent.grows, sent.output⟩
      · have nothing : (IkcpCall.update current).output kcp = [] :=
          congrArg (fun both => both.2.output) waited
        rw [nothing, IkcpCall.perform, waited]
        exact quietly outgoing incoming (.refl _ _)
  | setmtu unit =>
      rcases ikcpSetmtu_eq kcp unit with ⟨_, _, _, equal⟩
      rw [IkcpCall.perform, equal]
      exact quietly outgoing incoming (.refl _ _)
  | interval period => exact quietly outgoing incoming (.refl _ _)
  | nodelay fast period resend nc =>
      rcases ikcpNodelay_eq kcp fast period resend nc with ⟨_, _, _, _, _, equal⟩
      rw [IkcpCall.perform, equal]
      exact quietly outgoing incoming (.refl _ _)
  | wndsize sndwnd rcvwnd =>
      rcases ikcpWndsize_eq kcp sndwnd rcvwnd with ⟨_, _, equal⟩
      rw [IkcpCall.perform, equal]
      exact quietly outgoing incoming (.refl _ _)

end

/-! ## One step of a session -/

theorem Side.other_other (side : Side) : side.other.other = side := by
  cases side <;> rfl

theorem Side.other_ne (side : Side) : side.other ≠ side := by
  cases side <;> exact fun same => nomatch same

theorem Side.eq_or_eq_other (acting side : Side) : side = acting ∨ side = acting.other := by
  cases acting <;> cases side <;> first | exact .inl rfl | exact .inr rfl

theorem Session.act_endpoint (session : Session) (side : Side) (call : IkcpCall) :
    (session.act side call).endpoint side = (session.endpoint side).perform call :=
  Function.update_self _ _ _

theorem Session.act_endpoint_other (session : Session) (side : Side) (call : IkcpCall) :
    (session.act side call).endpoint side.other = session.endpoint side.other :=
  Function.update_of_ne side.other_ne _ _

theorem Session.act_wire (session : Session) (side : Side) (call : IkcpCall) :
    (session.act side call).wire side =
      session.wire side ++ call.output (session.endpoint side).kcp :=
  Function.update_self _ _ _

theorem Session.act_wire_other (session : Session) (side : Side) (call : IkcpCall) :
    (session.act side call).wire side.other = session.wire side.other :=
  Function.update_of_ne side.other_ne _ _

section

variable {conv : UInt32} {stream : Side -> Int32} {log : Side -> List Piece} {session : Session}

theorem coherent_fresh (conv : UInt32) (stream : Side -> Int32) :
    Coherent conv stream (fun _ => []) (Session.fresh conv stream) where
  sane := fun _ => ⟨(sane_create conv).sending, (sane_create conv).receiving, (sane_create conv).tuned⟩
  conversation := fun _ => rfl
  mode := fun _ => rfl
  outgoing := fun _ => {
    small := (by decide : 0 < 2147483648)
    next := rfl
    buffer := fun _ member => nomatch member
    modest := fun _ member => nomatch member
    single := fun _ _ member => nomatch member
    messages := ⟨[], .nil, rfl, fun _ => rfl⟩
    held := fun number inside => absurd inside (Nat.not_lt_zero number) }
  incoming := fun _ => {
    small := (by decide : 0 < 2147483648)
    expected := Nat.le_refl 0
    buffer := fun _ member => nomatch member
    taken := ⟨[], rfl, .nil⟩
    acks := fun _ member => nomatch member }
  wire := fun _ _ member => nomatch member

/-- What a side reads from the wire is right. -/
theorem Coherent.heard (coherent : Coherent conv stream log session) (side : Side)
    {datagram : List UInt8} (member : datagram ∈ session.wire side.other) {seg : Ikcpseg}
    (read : seg ∈ heardSegs conv datagram) :
    Heard (log side) (log side.other) (HasArrived (session.endpoint side.other).kcp) seg := by
  rcases coherent.wire side.other datagram member with ⟨_, segs, each, rfl⟩
  rw [heardSegs_wire fun seg there => (each seg there).wirable] at read
  rcases List.mem_map.mp read with ⟨origin, inside, rfl⟩
  have incoming := coherent.incoming side.other
  exact (each origin inside).heard (Nat.lt_of_le_of_lt incoming.expected incoming.small)

/-- A step on one side keeps a session coherent. -/
theorem Coherent.act (coherent : Coherent conv stream log session) {side : Side} {call : IkcpCall}
    (possible : call.Possible (session.wire side.other))
    (early : (session.endpoint side).kcp.sndNxt.toNat < 2147418112) :
    Exists fun longer => Coherent conv stream longer (session.act side call) := by
  have peer := coherent.outgoing side.other
  rcases peer.messages with ⟨units, whole, _, _⟩
  rcases perform_coherent call (coherent.sane side) (coherent.conversation side) (coherent.mode side)
    early (coherent.outgoing side) (coherent.incoming side) whole
    (fun piece member => peer.modest piece (List.mem_append_left _ member))
    (fun datagram member seg read => coherent.heard side member read) possible with ⟨more, sent⟩
  have identity := perform_identity (coherent.sane side) call
  have here : (session.act side call).endpoint side = (session.endpoint side).perform call :=
    session.act_endpoint side call
  have there : (session.act side call).endpoint side.other = session.endpoint side.other :=
    session.act_endpoint_other side call
  have own : Function.update log side (log side ++ more) side = log side ++ more :=
    Function.update_self _ _ _
  have foreign : Function.update log side (log side ++ more) side.other = log side.other :=
    Function.update_of_ne side.other_ne _ _
  refine ⟨Function.update log side (log side ++ more), ?_, ?_, ?_, ?_, ?_, ?_⟩
  · intro which
    rcases side.eq_or_eq_other which with rfl | rfl
    · rw [here]
      exact (coherent.sane which).perform call
    · rw [there]
      exact coherent.sane side.other
  · intro which
    rcases side.eq_or_eq_other which with rfl | rfl
    · rw [here]
      exact (congrArg Prod.fst identity).trans (coherent.conversation which)
    · rw [there]
      exact coherent.conversation side.other
  · intro which
    rcases side.eq_or_eq_other which with rfl | rfl
    · rw [here]
      exact (congrArg Prod.snd identity).trans (coherent.mode which)
    · rw [there]
      exact coherent.mode side.other
  · intro which
    rcases side.eq_or_eq_other which with rfl | rfl
    · rw [here, there, own]
      exact sent.outgoing
    · rw [there, foreign, side.other_other, here]
      have mine := coherent.outgoing side.other
      rw [side.other_other] at mine
      exact mine.mono sent.grows.arrived
  · intro which
    rcases side.eq_or_eq_other which with rfl | rfl
    · rw [here, foreign]
      exact sent.incoming
    · have mine := coherent.incoming side.other
      rw [side.other_other] at mine
      rw [there, side.other_other, own]
      exact mine.mono more sent.outgoing.small
  · intro which datagram member
    rcases side.eq_or_eq_other which with rfl | rfl
    · rw [session.act_wire] at member
      rw [here, own]
      rcases List.mem_append.mp member with old | new
      · rcases coherent.wire which datagram old with ⟨some_, segs, each, equal⟩
        exact ⟨some_, segs, fun seg inside => (each seg inside).mono sent.grows more, equal⟩
      · exact sent.output datagram new
    · rw [session.act_wire_other] at member
      rw [there, foreign]
      exact coherent.wire side.other datagram member

/-- Every early run of a session ends in a coherent state. -/
theorem coherent_of_run {conv : UInt32} {stream : Side -> Int32} {events : List (Side × IkcpCall)}
    {final : Session}
    (run : Run (Restrict Session.Early (Stepping Session.next)) (Session.fresh conv stream) events
      final) : Exists fun log => Coherent conv stream log final := by
  apply run.invariant _ ⟨_, coherent_fresh conv stream⟩
  rintro before ⟨side, call⟩ after ⟨log, coherent⟩ ⟨early, stepped⟩
  rcases Session.next_eq_some stepped with ⟨possible, _, rfl⟩
  exact coherent.act possible (early side)

end

/-! ## What is delivered -/

/-- What a side has received is a front part of the messages of the other side. -/
theorem Coherent.received {conv : UInt32} {stream : Side -> Int32} {log : Side -> List Piece}
    {session : Session} (coherent : Coherent conv stream log session) (side : Side) :
    Exists fun units => (session.endpoint side.other).received <+: units ∧
      units.flatten = (session.endpoint side).accepted.flatten ∧
      (stream side = 0 -> units = (session.endpoint side).accepted) := by
  have incoming := coherent.incoming side.other
  rw [side.other_other] at incoming
  rcases incoming.taken with ⟨consumed, equal, front⟩
  rcases (coherent.outgoing side).messages with ⟨units, whole, same, modal⟩
  refine ⟨units, front.isPrefix whole ?_, same, modal⟩
  have cut : consumed <+: (log side).take (session.endpoint side.other).kcp.rcvNxt.toNat := by
    rw [← equal]
    exact List.prefix_append _ _
  exact (cut.trans (List.take_prefix _ _)).trans (List.prefix_append _ _)

/-- The left side sends three bytes.  The datagram arrives twice, and so does
the acknowledge. -/
def twice : List (Side × IkcpCall) :=
  let data : List UInt8 := [7, 0, 0, 0, 81, 0, 128, 0, 0, 0, 0, 0, 0, 0, 0, 0, 0, 0, 0, 0, 3, 0, 0,
    0, 1, 2, 3]
  let ack : List UInt8 := [7, 0, 0, 0, 82, 0, 128, 0, 0, 0, 0, 0, 0, 0, 0, 0, 1, 0, 0, 0, 0, 0, 0, 0]
  [(.left, .nodelay 1 10 2 1), (.left, .send [1, 2, 3]), (.left, .update 0), (.right, .input data),
    (.right, .recv 100), (.right, .update 0), (.right, .input data), (.left, .input ack),
    (.left, .input ack)]

/-- In every run, the bytes that one side has received are a front part of the
bytes that the other side has sent. -/
theorem received_bytes_of_run {conv : UInt32} {stream : Side -> Int32}
    {events : List (Side × IkcpCall)} {final : Session}
    (run : Run (Restrict Session.Early (Stepping Session.next)) (Session.fresh conv stream) events
      final) (side : Side) :
    (final.endpoint side.other).received.flatten <+: (final.endpoint side).accepted.flatten := by
  rcases coherent_of_run run with ⟨log, coherent⟩
  rcases coherent.received side with ⟨units, ⟨later, rfl⟩, same, _⟩
  rw [← same, List.flatten_append]
  exact List.prefix_append _ _

theorem received_bytes_of_run_twice :
    Exists fun final => Run (Restrict Session.Early (Stepping Session.next))
        (Session.fresh 7 fun _ => 1) twice final ∧
      (final.endpoint .right).received = [[1, 2, 3]] ∧
      (final.endpoint Side.left.other).received.flatten <+:
        (final.endpoint .left).accepted.flatten := by
  have facts : (execute (guarded Session.Early Session.next) (Session.fresh 7 fun _ => 1) twice).map
      (fun session => (session.endpoint .right).received) = some [[1, 2, 3]] := by
    decide
  rcases Run.of_guarded_map facts with ⟨final, run, received⟩
  exact ⟨final, run, received, received_bytes_of_run run .left⟩

/-- When the sender is not in streaming mode, the messages that the other side
has received are its first messages. -/
theorem received_messages_of_run {conv : UInt32} {stream : Side -> Int32}
    {events : List (Side × IkcpCall)} {final : Session}
    (run : Run (Restrict Session.Early (Stepping Session.next)) (Session.fresh conv stream) events
      final) {side : Side} (whole : stream side = 0) :
    (final.endpoint side.other).received <+: (final.endpoint side).accepted := by
  rcases coherent_of_run run with ⟨log, coherent⟩
  rcases coherent.received side with ⟨units, front, _, modal⟩
  rw [← modal whole]
  exact front

theorem received_messages_of_run_twice :
    Exists fun final => Run (Restrict Session.Early (Stepping Session.next))
        (Session.fresh 7 fun _ => 0) twice final ∧
      (final.endpoint .right).received = [[1, 2, 3]] ∧
      (final.endpoint Side.left.other).received <+: (final.endpoint .left).accepted := by
  have facts : (execute (guarded Session.Early Session.next) (Session.fresh 7 fun _ => 0) twice).map
      (fun session => (session.endpoint .right).received) = some [[1, 2, 3]] := by
    decide
  rcases Run.of_guarded_map facts with ⟨final, run, received⟩
  exact ⟨final, run, received, received_messages_of_run run rfl⟩

/-- The numbers of a receive buffer go up as numbers, too. -/
theorem ReceiveLog.ascending {log : List Piece} {kcp : Ikcpcb} {received : List (List UInt8)}
    (incoming : Incoming log kcp received) (receiving : Receiving kcp) :
    ((numbers kcp.rcvBuf).map UInt32.toNat).Pairwise (· < ·) ∧
      forall number, number ∈ (numbers kcp.rcvBuf).map UInt32.toNat ->
        kcp.rcvNxt.toNat ≤ number := by
  have small := incoming.small
  have expected := incoming.expected
  have plain : forall number, number ∈ numbers kcp.rcvBuf ->
      kcp.rcvNxt.toNat + Serial.offset kcp.rcvNxt number = number.toNat := by
    intro number member
    have near := receiving.ascending.below number member
    rcases List.mem_map.mp member with ⟨seg, inside, rfl⟩
    have below := (incoming.buffer seg inside).lt
    rw [Serial.offset_eq] at near ⊢
    omega
  constructor
  · rw [List.pairwise_map]
    apply receiving.ascending.ordered.imp_of_mem
    intro first second here later less
    have one := plain first here
    have two := plain second later
    omega
  · intro number member
    rcases List.mem_map.mp member with ⟨word, inside, rfl⟩
    rw [← plain word inside]
    exact Nat.le_add_right _ _

/-- When the sender has nothing left to send, the other side has received or
still holds every byte. -/
theorem everything_of_run {conv : UInt32} {stream : Side -> Int32}
    {events : List (Side × IkcpCall)} {final : Session}
    (run : Run (Restrict Session.Early (Stepping Session.next)) (Session.fresh conv stream) events
      final) {side : Side} (queue : (final.endpoint side).kcp.sndQueue = [])
    (buffer : (final.endpoint side).kcp.sndBuf = []) :
    (final.endpoint side.other).received.flatten ++
        segmentBytes ((final.endpoint side.other).kcp.rcvQueue ++
          (final.endpoint side.other).kcp.rcvBuf) =
      (final.endpoint side).accepted.flatten := by
  rcases coherent_of_run run with ⟨log, coherent⟩
  have outgoing := coherent.outgoing side
  have incoming := coherent.incoming side.other
  rw [side.other_other] at incoming
  have receiving := (coherent.sane side.other).receiving
  generalize final.endpoint side.other = peer at outgoing incoming receiving ⊢
  rcases incoming.ascending receiving with ⟨ascending, above⟩
  have each : List.Forall₂ (Genuine (log side)) ((numbers peer.kcp.rcvBuf).map UInt32.toNat)
      (pieces peer.kcp.rcvBuf) := by
    rw [numbers, List.map_map, pieces, List.forall₂_map_left_iff, List.forall₂_map_right_iff,
      List.forall₂_same]
    exact incoming.buffer
  have all : forall number, number < (log side).length -> HasArrived peer.kcp number := by
    intro number inside
    rcases outgoing.held number inside with held | there
    · rw [buffer] at held
      cases held
    · exact there
  have whole := Reassembly.take_append_buffer each ascending above incoming.expected all
  rcases incoming.taken with ⟨consumed, equal, front⟩
  rcases outgoing.messages with ⟨units, sent, same, _⟩
  calc peer.received.flatten ++ segmentBytes (peer.kcp.rcvQueue ++ peer.kcp.rcvBuf)
      = (consumed ++ pieces peer.kcp.rcvQueue ++ pieces peer.kcp.rcvBuf).flatMap Piece.data := by
        rw [front.flatten, segmentBytes_append, List.flatMap_append, List.flatMap_append,
          flatMap_pieces, flatMap_pieces, List.append_assoc]
    _ = (log side ++ pieces (final.endpoint side).kcp.sndQueue).flatMap Piece.data := by
        rw [equal, whole, queue, pieces, List.map_nil, List.append_nil]
    _ = (final.endpoint side).accepted.flatten := by rw [← sent.flatten, same]

theorem everything_of_run_twice :
    Exists fun final => Run (Restrict Session.Early (Stepping Session.next))
        (Session.fresh 7 fun _ => 0) twice final ∧
      (final.endpoint Side.left.other).received.flatten ++
          segmentBytes ((final.endpoint Side.left.other).kcp.rcvQueue ++
            (final.endpoint Side.left.other).kcp.rcvBuf) =
        (final.endpoint .left).accepted.flatten := by
  have facts : (execute (guarded Session.Early Session.next) (Session.fresh 7 fun _ => 0) twice).map
      (fun session => ((session.endpoint .left).kcp.sndQueue, (session.endpoint .left).kcp.sndBuf)) =
        some ([], []) := by
    decide
  rcases Run.of_guarded_map facts with ⟨final, run, same⟩
  simp only [Prod.mk.injEq] at same
  exact ⟨final, run, everything_of_run run same.1 same.2⟩

/-- Whatever is on the wire belongs to the conversation, and the other side
accepts it at any time. -/
theorem accepted_of_run {conv : UInt32} {stream : Side -> Int32} {events : List (Side × IkcpCall)}
    {final : Session}
    (run : Run (Restrict Session.Early (Stepping Session.next)) (Session.fresh conv stream) events
      final) {side : Side} {datagram : List UInt8} (member : datagram ∈ final.wire side.other) :
    ikcpGetconv datagram = conv ∧ (ikcpInput (final.endpoint side).kcp datagram).2 = 0 := by
  rcases coherent_of_run run with ⟨log, coherent⟩
  rcases coherent.wire side.other datagram member with ⟨some_, segs, each, rfl⟩
  have wirable : forall seg, seg ∈ segs -> Wirable conv seg :=
    fun seg inside => (each seg inside).wirable
  have least : segs ≠ [] := by
    rintro rfl
    exact some_ rfl
  refine ⟨ikcpGetconv_wire least wirable, ikcpInput_wire least ?_⟩
  rw [coherent.conversation side]
  exact wirable

theorem accepted_of_run_twice :
    Exists fun final => Run (Restrict Session.Early (Stepping Session.next))
        (Session.fresh 7 fun _ => 0) twice final ∧
      Exists fun datagram => datagram ∈ final.wire .left ∧ ikcpGetconv datagram = 7 ∧
        (ikcpInput (final.endpoint .right).kcp datagram).2 = 0 := by
  have facts : (execute (guarded Session.Early Session.next) (Session.fresh 7 fun _ => 0) twice).map
      (fun session => (session.wire .left).length) = some 1 := by
    decide
  rcases Run.of_guarded_map facts with ⟨final, run, one⟩
  cases wire : final.wire .left with
  | nil =>
      rw [wire] at one
      cases one
  | cons datagram others =>
      have member : datagram ∈ final.wire .left := by
        rw [wire]
        exact List.mem_cons_self
      exact ⟨final, run, datagram, member, @accepted_of_run _ _ _ _ run .right _ member⟩

end Kcp
end ServerTech
