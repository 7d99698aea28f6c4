import ServerTech.Kcp.Delivery
import ServerTech.Kcp.Draining
import ServerTech.Kcp.Units

namespace ServerTech
namespace Kcp

open Transition (Run Restrict Stepping execute guarded)
open Fragmenting (Messages)
open Reassembly (Genuine Arrived)

/-!
# Everything can still be delivered

Whatever has happened to a session, it is never stuck.  The network may have
lost every datagram so far, windows may be closed and queues full: with calls
that send nothing new and change no setting, both sides can still be brought to
the point where everything that was accepted has been received.

The measure is the backlog of a side, the segments in its send buffer and its
send queue.  It never grows in a calm continuation.  A segment in the send
buffer is sent when its time has run out, the peer notes it, and the
acknowledge takes it away.  With an empty send buffer, the peer is asked for its
window when that is closed, and then a flush numbers the next segment.
-/

/-! ## Calm continuations -/

/-- The call sends nothing new and changes no setting, and an update takes the
clock ahead by at most half of its range. -/
def Session.Calm (session : Session) (event : Side × IkcpCall) : Prop :=
  match event.2 with
  | .recv _ | .input _ | .flush => True
  | .update now => Serial.offset (session.endpoint event.1).kcp.current now ≤ 2147483648
  | .send _ | .setmtu _ | .interval _ | .nodelay .. | .wndsize .. => False

/-- An early session, and a call with a size that the formats can hold and that
sets no transfer unit too small or too large. -/
def Session.Moderate (session : Session) (event : Side × IkcpCall) : Prop :=
  session.Early event ∧ event.2.Sized ∧ Fitting (session.endpoint event.1).kcp event.2

instance (session : Session) (event : Side × IkcpCall) : Decidable (session.Moderate event) :=
  inferInstanceAs (Decidable (_ ∧ _ ∧ _))

/-- A session can come to another one without anything new. -/
def Session.Reaches (session final : Session) : Prop :=
  Exists fun events => Run (Restrict Session.Calm (Stepping Session.next)) session events final

theorem Session.Reaches.refl (session : Session) : session.Reaches session :=
  ⟨[], .refl session⟩

theorem Session.Reaches.trans {session middle final : Session} (first : session.Reaches middle)
    (second : middle.Reaches final) : session.Reaches final := by
  rcases first with ⟨before, one⟩
  rcases second with ⟨behind, two⟩
  exact ⟨before ++ behind, one.append two⟩

theorem Session.reaches_act {session : Session} {side : Side} {call : IkcpCall}
    (possible : call.Possible (session.wire side.other))
    (sound : call.fault (session.endpoint side).kcp = false) (calm : session.Calm (side, call)) :
    session.Reaches (session.act side call) := by
  have stepped : session.next (side, call) = some (session.act side call) :=
    if_pos ⟨possible, sound⟩
  exact ⟨[] ++ [(side, call)], .snoc (.refl session) ⟨calm, stepped⟩⟩

/-- The segments that a side has still to deliver. -/
def Session.backlog (session : Session) (side : Side) : Nat :=
  (session.endpoint side).kcp.sndBuf.length + (session.endpoint side).kcp.sndQueue.length

/-- A call that adds nothing to a backlog. -/
structure Lighter (kcp after : Ikcpcb) : Prop where
  room : after.sndNxt.toNat + after.sndQueue.length ≤ kcp.sndNxt.toNat + kcp.sndQueue.length
  backlog : after.sndBuf.length + after.sndQueue.length ≤ kcp.sndBuf.length + kcp.sndQueue.length

theorem Lighter.refl (kcp : Ikcpcb) : Lighter kcp kcp :=
  ⟨Nat.le_refl _, Nat.le_refl _⟩

theorem lighter_flush (kcp : Ikcpcb) : Lighter kcp (ikcpFlush kcp).1 := by
  rcases ikcpFlush_backlog kcp with ⟨count, queue, buffer, next⟩
  refine ⟨?_, by omega⟩
  have small := Nat.mod_le count 4294967296
  rw [next, UInt32.toNat_add, UInt32.toNat_ofNat']
  omega

theorem lighter_recv (kcp : Ikcpcb) (len : Int32) : Lighter kcp (ikcpRecv kcp len).1 := by
  rcases ikcpRecv_cases kcp len with ⟨code, _, equal⟩ | ⟨probe, _, _, equal⟩
  · rw [equal]
    exact .refl kcp
  · rcases moveAvailable_spec (if len < 0 then kcp else kcp.withoutMessage) with
      ⟨front, back, _, moved⟩
    rw [equal, moved]
    split <;> exact ⟨Nat.le_refl _, Nat.le_refl _⟩

theorem lighter_input (kcp : Ikcpcb) (data : List UInt8) : Lighter kcp (ikcpInput kcp data).1 := by
  rcases ikcpInput_backlog kcp data with ⟨queue, next, fewer⟩
  have less := fewer.length_le
  rw [numbers, numbers, List.length_map, List.length_map] at less
  exact ⟨by rw [queue, next], by rw [queue]; omega⟩

theorem lighter_update (kcp : Ikcpcb) (current : UInt32) :
    Lighter kcp (ikcpUpdate kcp current).1 := by
  rcases ikcpUpdate_cases kcp current with ⟨updated, tsFlush, _, flushed | waited⟩
  · have lighter := lighter_flush
      { kcp with current := current, updated := updated, tsFlush := tsFlush }
    rw [flushed]
    exact ⟨lighter.room, lighter.backlog⟩
  · rw [waited]
    exact ⟨Nat.le_refl _, Nat.le_refl _⟩

theorem Session.Calm.lighter {session : Session} {side : Side} {call : IkcpCall}
    (calm : session.Calm (side, call)) (kcp : Ikcpcb) :
    Lighter kcp (call.perform kcp) ∧ (call.Sized ∧ Fitting kcp call) ∧ call.accepts kcp = [] := by
  cases call with
  | send buffer | setmtu unit | interval period | nodelay fast period resend nc
  | wndsize sndwnd rcvwnd => exact absurd calm id
  | recv len => exact ⟨lighter_recv kcp len, ⟨trivial, trivial⟩, rfl⟩
  | input data => exact ⟨lighter_input kcp data, ⟨trivial, trivial⟩, rfl⟩
  | update current => exact ⟨lighter_update kcp current, ⟨trivial, trivial⟩, rfl⟩
  | flush => exact ⟨lighter_flush kcp, ⟨trivial, trivial⟩, rfl⟩

/-! ## Sessions in which progress is possible -/

/-- What holds after every moderate run. -/
structure Ready (conv : UInt32) (stream : Side -> Int32) (session : Session) : Prop where
  coherent : Exists fun log => Coherent conv stream log session
  steady : forall side, Steady (session.endpoint side).kcp
  held : forall side, Held (session.endpoint side).kcp
  short : forall side message, message ∈ (session.endpoint side).accepted ->
    message.length < 2147483648

/-- Everything that is waiting can be numbered before the numbers come near
half of their range. -/
structure Fit (conv : UInt32) (stream : Side -> Int32) (session : Session) : Prop extends
    Ready conv stream session where
  room : forall side, (session.endpoint side).kcp.sndNxt.toNat +
    (session.endpoint side).kcp.sndQueue.length < 2147418112

section

variable {conv : UInt32} {stream : Side -> Int32} {session final : Session} {side : Side}

theorem ready_fresh (conv : UInt32) (stream : Side -> Int32) :
    Ready conv stream (Session.fresh conv stream) where
  coherent := ⟨_, coherent_fresh conv stream⟩
  steady := fun _ => ⟨(steady_create conv).waits, (steady_create conv).own, (steady_create conv).narrow⟩
  held := fun _ => ⟨(held_create conv).unit, (held_create conv).block, (held_create conv).fits⟩
  short := fun _ _ member => nomatch member

theorem accepts_short {kcp : Ikcpcb} {call : IkcpCall} (sized : call.Sized) {message : List UInt8}
    (member : message ∈ call.accepts kcp) : message.length < 2147483648 := by
  cases call with
  | recv len | input data | update current | flush | setmtu unit | interval period
  | nodelay fast period resend nc | wndsize sndwnd rcvwnd => cases member
  | send buffer =>
      rw [IkcpCall.accepts] at member
      split at member
      · rw [List.mem_singleton.mp member]
        exact Nat.lt_of_le_of_lt (List.length_take_le' _ _) sized
      · cases member

theorem Ready.act (ready : Ready conv stream session) {call : IkcpCall}
    (possible : call.Possible (session.wire side.other)) (sized : call.Sized)
    (fitting : Fitting (session.endpoint side).kcp call)
    (early : (session.endpoint side).kcp.sndNxt.toNat < 2147418112) :
    Ready conv stream (session.act side call) := by
  rcases ready.coherent with ⟨log, coherent⟩
  refine ⟨coherent.act possible early, ?_, ?_, ?_⟩
  · intro which
    rcases side.eq_or_eq_other which with rfl | rfl
    · rw [session.act_endpoint]
      exact (ready.steady which).perform (coherent.sane which) sized
    · rw [session.act_endpoint_other]
      exact ready.steady side.other
  · intro which
    rcases side.eq_or_eq_other which with rfl | rfl
    · rw [session.act_endpoint]
      exact held_perform (coherent.sane which) (ready.held which) fitting
    · rw [session.act_endpoint_other]
      exact ready.held side.other
  · intro which message member
    rcases side.eq_or_eq_other which with rfl | rfl
    · rw [session.act_endpoint] at member
      rcases List.mem_append.mp member with old | new
      · exact ready.short which message old
      · exact accepts_short sized new
    · rw [session.act_endpoint_other] at member
      exact ready.short side.other message member

/-- No call makes a fault. -/
theorem Ready.sound (ready : Ready conv stream session) (side : Side) (call : IkcpCall) :
    call.fault (session.endpoint side).kcp = false := by
  rcases ready.coherent with ⟨log, coherent⟩
  exact (within_perform (coherent.sane side) (ready.held side) call).1

/-- Every moderate run ends in a session that is ready. -/
theorem ready_of_run {events : List (Side × IkcpCall)}
    (run : Run (Restrict Session.Moderate (Stepping Session.next)) (Session.fresh conv stream) events
      final) : Ready conv stream final := by
  apply run.invariant _ (ready_fresh conv stream)
  rintro before ⟨acting, call⟩ after ready ⟨⟨early, sized, fitting⟩, stepped⟩
  rcases Session.next_eq_some stepped with ⟨possible, _, rfl⟩
  exact ready.act possible sized fitting (early acting)

/-- A session that is still fit, with no more to deliver. -/
structure Eased (conv : UInt32) (stream : Side -> Int32) (session final : Session) : Prop where
  fit : Fit conv stream final
  backlog : forall which, final.backlog which ≤ session.backlog which
  accepted : forall which,
    (final.endpoint which).accepted = (session.endpoint which).accepted

theorem Eased.trans {middle : Session} (first : Eased conv stream session middle)
    (second : Eased conv stream middle final) : Eased conv stream session final where
  fit := second.fit
  backlog := fun which => Nat.le_trans (second.backlog which) (first.backlog which)
  accepted := fun which => (second.accepted which).trans (first.accepted which)

/-- A calm step. -/
theorem Fit.act (fit : Fit conv stream session) {call : IkcpCall}
    (possible : call.Possible (session.wire side.other)) (calm : session.Calm (side, call)) :
    Eased conv stream session (session.act side call) := by
  rcases calm.lighter (session.endpoint side).kcp with ⟨lighter, ⟨sized, fitting⟩, nothing⟩
  have room := fit.room side
  refine ⟨⟨fit.toReady.act possible sized fitting (by omega), ?_⟩, ?_, ?_⟩
  · intro which
    rcases side.eq_or_eq_other which with rfl | rfl
    · rw [session.act_endpoint]
      exact Nat.lt_of_le_of_lt lighter.room room
    · rw [session.act_endpoint_other]
      exact fit.room side.other
  · intro which
    rcases side.eq_or_eq_other which with rfl | rfl
    · rw [Session.backlog, session.act_endpoint]
      exact lighter.backlog
    · rw [Session.backlog, session.act_endpoint_other]
      exact Nat.le_refl _
  · intro which
    rcases side.eq_or_eq_other which with rfl | rfl
    · rw [session.act_endpoint, Endpoint.perform, nothing, List.append_nil]
    · rw [session.act_endpoint_other]

/-- A calm continuation. -/
theorem Fit.reaches (fit : Fit conv stream session) (reaches : session.Reaches final) :
    Eased conv stream session final := by
  rcases reaches with ⟨events, run⟩
  have start : Eased conv stream session session := ⟨fit, fun _ => Nat.le_refl _, fun _ => rfl⟩
  apply run.invariant _ start
  rintro before ⟨acting, call⟩ after eased ⟨calm, stepped⟩
  rcases Session.next_eq_some stepped with ⟨possible, _, rfl⟩
  exact eased.trans (eased.fit.act possible calm)

/-! ## What one side brings about -/

/-- A control block after its clock has been set. -/
def Ikcpcb.clocked (kcp : Ikcpcb) (current updated tsFlush : UInt32) : Ikcpcb :=
  { kcp with current := current, updated := updated, tsFlush := tsFlush }

/-- One side has flushed from this control block, and nothing else has happened. -/
structure Pulsed (session final : Session) (side : Side) (kcp : Ikcpcb) : Prop where
  reaches : session.Reaches final
  here : (final.endpoint side).kcp = (ikcpFlush kcp).1
  wire : forall datagram, datagram ∈ (ikcpFlush kcp).2.output -> datagram ∈ final.wire side
  other : final.endpoint side.other = session.endpoint side.other

/-- A side can flush at any time that is not behind its clock. -/
theorem Fit.pulse (fit : Fit conv stream session) (side : Side) {now : UInt32}
    (ahead : Serial.offset (session.endpoint side).kcp.current now ≤ 2147483648) :
    Exists fun updated => Exists fun tsFlush => Exists fun final => updated ≠ 0 ∧
      Pulsed session final side ((session.endpoint side).kcp.clocked now updated tsFlush) := by
  have first : session.Reaches (session.act side (.update now)) :=
    Session.reaches_act trivial (fit.sound side _) ahead
  rcases ikcpUpdate_cases (session.endpoint side).kcp now with
    ⟨updated, tsFlush, started, flushed | waited⟩
  · refine ⟨updated, tsFlush, _, started, first, ?_, ?_, session.act_endpoint_other side _⟩
    · rw [session.act_endpoint]
      exact congrArg Prod.fst flushed
    · have output : (IkcpCall.update now).output (session.endpoint side).kcp =
          (ikcpFlush ((session.endpoint side).kcp.clocked now updated tsFlush)).2.output :=
        congrArg (fun result => result.2.output) flushed
      intro datagram member
      rw [session.act_wire, output]
      exact List.mem_append_right _ member
  · have clock : ((session.act side (.update now)).endpoint side).kcp =
        (session.endpoint side).kcp.clocked now updated tsFlush := by
      rw [session.act_endpoint]
      exact congrArg Prod.fst waited
    refine ⟨updated, tsFlush, (session.act side (.update now)).act side .flush, started,
      first.trans (Session.reaches_act trivial ((fit.reaches first).fit.sound side _) trivial),
      ?_, ?_, ?_⟩
    · rw [Session.act_endpoint, Endpoint.perform, clock]
      rfl
    · intro datagram member
      rw [Session.act_wire, clock]
      exact List.mem_append_right _ member
    · rw [Session.act_endpoint_other, session.act_endpoint_other]

/-- A side can flush now. -/
theorem Fit.pulse_now (fit : Fit conv stream session) (side : Side) :
    Exists fun updated => Exists fun tsFlush => Exists fun final => updated ≠ 0 ∧
      Pulsed session final side ((session.endpoint side).kcp.clocked
        (session.endpoint side).kcp.current updated tsFlush) := by
  apply fit.pulse
  rw [Serial.offset_eq_zero_iff.mpr rfl]
  exact Nat.zero_le _

/-- Every segment that is written can be sent. -/
theorem Written.wirable {log : List Piece} {kcp : Ikcpcb} {sndBuf : List Ikcpseg} {seg : Ikcpseg}
    (written : Written kcp sndBuf seg) (conversation : kcp.conv = conv)
    (buffer : forall seg, seg ∈ sndBuf -> Carrying conv log seg)
    (modest : forall piece, piece ∈ log -> Modest piece) : Wirable conv seg := by
  cases written with
  | ack same _ bare command _ =>
      exact ⟨same.trans conversation, by rw [command]; decide, by rw [bare]; decide⟩
  | window same _ bare command =>
      refine ⟨same.trans conversation, ?_, by rw [bare]; decide⟩
      rcases command with ask | tell
      · rw [ask]
        decide
      · rw [tell]
        decide
  | data _ lasting =>
      rcases List.mem_map.mp lasting with ⟨segment, member, same⟩
      have carrying := (buffer segment member).of_lasting same
      have inside : seg.piece ∈ log := List.mem_of_getElem? carrying.genuine
      exact ⟨carrying.conversation, by rw [carrying.push]; decide, (modest _ inside).data⟩

/-- What a flush writes is in datagrams on the wire, with nothing else than what
the same flush writes. -/
theorem Pulsed.tells {kcp : Ikcpcb} (pulsed : Pulsed session final side kcp)
    (fit : Fit conv stream final) (conversation : kcp.conv = conv) (started : kcp.updated ≠ 0) :
    Exists fun segs => Telling kcp (ikcpFlush kcp).1.sndBuf segs ∧ forall seg, seg ∈ segs ->
      Exists fun datagram => datagram ∈ final.wire side ∧
        seg.heard ∈ heardSegs conv datagram ∧
        forall other, other ∈ heardSegs conv datagram -> other.wnd = ikcpWndUnused kcp % 65536 := by
  rcases ikcpFlush_telling started with ⟨segs, packs, nothing, telling⟩
  refine ⟨segs, telling, ?_⟩
  intro seg member
  rcases packs.datagram nothing member with ⟨part, inside, known, output⟩
  rcases fit.coherent with ⟨log, coherent⟩
  have outgoing := coherent.outgoing side
  rw [pulsed.here] at outgoing
  have wirable : forall other, other ∈ part -> Wirable conv other := by
    intro other there
    exact (telling.each other (known other there)).2.wirable conversation outgoing.buffer
      fun piece logged => outgoing.modest piece (List.mem_append_left _ logged)
  refine ⟨_, pulsed.wire _ output, ?_, ?_⟩
  · rw [heardSegs_wire wirable]
    exact List.mem_map_of_mem inside
  · intro other there
    rw [heardSegs_wire wirable] at there
    rcases List.mem_map.mp there with ⟨origin, here, rfl⟩
    rw [Ikcpseg.heard, (telling.each origin (known origin here)).1]

/-! ## Draining -/

/-- There is no whole message to take. -/
def Session.Drained (session : Session) (side : Side) : Prop :=
  ikcpPeeksize (session.endpoint side).kcp < 0

theorem ReceiveLog.logged {log : List Piece} {kcp : Ikcpcb} {received : List (List UInt8)}
    (incoming : Incoming log kcp received) {seg : Ikcpseg} (member : seg ∈ kcp.rcvQueue) :
    seg.piece ∈ log := by
  rcases incoming.taken with ⟨consumed, equal, _⟩
  apply List.mem_of_mem_take (i := kcp.rcvNxt.toNat)
  rw [← equal]
  exact List.mem_append_right _ (List.mem_map_of_mem member)

theorem peeksize_nonempty {kcp : Ikcpcb} (known : 0 ≤ ikcpPeeksize kcp) : kcp.rcvQueue ≠ [] := by
  intro none_
  rw [ikcpPeeksize, none_] at known
  exact absurd known (by decide : ¬ (0 : Int) ≤ -1)

/-- The pieces in a receive queue are modest. -/
theorem Ready.modest (ready : Ready conv stream session) {seg : Ikcpseg}
    (member : seg ∈ (session.endpoint side).kcp.rcvQueue) : Modest seg.piece := by
  rcases ready.coherent with ⟨log, coherent⟩
  exact (coherent.outgoing side.other).modest _
    (List.mem_append_left _ ((coherent.incoming side).logged member))

/-- The next message has a length that an `int` can hold. -/
theorem Ready.message_short (ready : Ready conv stream session)
    (known : 0 ≤ ikcpPeeksize (session.endpoint side).kcp) :
    ikcpPeeksize (session.endpoint side).kcp < 2147483648 := by
  rcases ready.coherent with ⟨log, coherent⟩
  have incoming := coherent.incoming side
  have outgoing := coherent.outgoing side.other
  have some_ := peeksize_nonempty known
  by_cases whole : stream side.other = 0
  · rcases outgoing.messages with ⟨units, sent, _, modal⟩
    have taken := incoming.withoutMessage (coherent.sane side) sent
      (fun piece member => outgoing.modest piece (List.mem_append_left _ member)) some_ known
    rcases taken.taken with ⟨consumed, equal, front⟩
    have cut : consumed <+: log side.other := by
      apply List.IsPrefix.trans _ (List.take_prefix (session.endpoint side).kcp.rcvNxt.toNat _)
      exact ⟨_, equal⟩
    have logged := front.isPrefix sent (cut.trans (List.prefix_append _ _))
    rw [modal whole] at logged
    have short := ready.short side.other _ (logged.subset (List.mem_append_right _
      (List.mem_singleton_self _)))
    rw [ikcpPeeksize_eq known]
    omega
  · cases queue : (session.endpoint side).kcp.rcvQueue with
    | nil => exact absurd queue some_
    | cons seg others =>
        have member : seg ∈ (session.endpoint side).kcp.rcvQueue := by
          rw [queue]
          exact List.mem_cons_self
        have single := outgoing.single whole seg.piece
          (List.mem_append_left _ (incoming.logged member))
        have short := (ready.modest member).data
        have length : seg.piece.data.length = seg.data.length := rfl
        rw [ikcpPeeksize, queue]
        simp only [if_pos (Piece.left_eq_zero_iff.mp single)]
        omega

/-- A reader can take messages until there is none left. -/
theorem Fit.drain (fit : Fit conv stream session) (side : Side) :
    Exists fun final => session.Reaches final ∧ final.Drained side ∧
      final.endpoint side.other = session.endpoint side.other ∧
      (Asked (session.endpoint side).kcp.probe -> Asked (final.endpoint side).kcp.probe) := by
  induction size : (session.endpoint side).kcp.rcvQueue.length +
      (session.endpoint side).kcp.rcvBuf.length using Nat.strong_induction_on generalizing session with
  | _ count inductionHypothesis =>
      by_cases known : 0 ≤ ikcpPeeksize (session.endpoint side).kcp
      · have taken := ikcpRecv_takes known (fit.message_short known)
        have step : session.Reaches (session.act side (.recv 2147483647)) :=
          Session.reaches_act trivial rfl trivial
        have less : ((session.act side (.recv 2147483647)).endpoint side).kcp.rcvQueue.length +
            ((session.act side (.recv 2147483647)).endpoint side).kcp.rcvBuf.length < count := by
          rw [← size, session.act_endpoint]
          exact taken.1
        rcases inductionHypothesis _ less (fit.reaches step).fit rfl with
          ⟨final, later, drained, same, kept⟩
        refine ⟨final, step.trans later, drained, ?_, ?_⟩
        · rw [same, session.act_endpoint_other]
        · intro asked
          apply kept
          rw [session.act_endpoint]
          exact taken.2 asked
      · exact ⟨session, .refl session, Int.not_le.mp known, rfl, id⟩

theorem Ready.drained_short (ready : Ready conv stream session) (drained : session.Drained side) :
    (session.endpoint side).kcp.rcvQueue.length < 128 := by
  rcases ready.coherent with ⟨log, coherent⟩
  exact short_queue (coherent.sane side) (fun seg member => (ready.modest member).frg) drained

/-- A drained side has not got the number that it expects. -/
theorem Ready.expected_missing (ready : Ready conv stream session)
    (drained : session.Drained side) {number : Nat}
    (arrived : HasArrived (session.endpoint side).kcp number) :
    number ≠ (session.endpoint side).kcp.rcvNxt.toNat := by
  rintro rfl
  rcases arrived with less | member
  · exact Nat.lt_irrefl _ less
  · rcases List.mem_map.mp member with ⟨sn, inside, same⟩
    rw [UInt32.toNat_inj.mp same] at inside
    have full := (ready.steady side).waits inside
    have short := ready.drained_short drained
    omega

/-! ## An acknowledge -/

/-- The numbers of a send buffer start with the least one. -/
theorem Coherent.least {log : Side -> List Piece} (coherent : Coherent conv stream log session)
    {segment : Ikcpseg} {others : List Ikcpseg}
    (buffer : (session.endpoint side).kcp.sndBuf = segment :: others) {number : Nat}
    (member : number ∈ (numbers (session.endpoint side).kcp.sndBuf).map UInt32.toNat) :
    segment.sn.toNat ≤ number := by
  rcases List.mem_map.mp member with ⟨sn, inside, rfl⟩
  have sending := (coherent.sane side).sending
  have outgoing := coherent.outgoing side
  have oldest := sending.oldest
  rw [buffer] at oldest
  have near := sending.ascending.below sn inside
  have flight := sending.flight
  have here : segment ∈ (session.endpoint side).kcp.sndBuf := by
    rw [buffer]
    exact List.mem_cons_self
  have small := outgoing.small
  have first := (outgoing.buffer segment here).genuine.lt
  have head : (session.endpoint side).kcp.sndUna.toNat = segment.sn.toNat :=
    congrArg UInt32.toNat oldest.symm
  rw [Serial.offset_eq, head] at near
  have word := sn.toNat_lt
  rcases List.mem_map.mp inside with ⟨seg, there, rfl⟩
  have last := (outgoing.buffer seg there).genuine.lt
  omega

/-- The peer, once it is drained, expects no number before the oldest one in
flight. -/
theorem Ready.oldest_near (ready : Ready conv stream session) (drained : session.Drained side.other)
    {segment : Ikcpseg} {others : List Ikcpseg}
    (buffer : (session.endpoint side).kcp.sndBuf = segment :: others) :
    segment.sn.toNat ≤ (session.endpoint side.other).kcp.rcvNxt.toNat := by
  rcases ready.coherent with ⟨log, coherent⟩
  apply Nat.le_of_not_lt
  intro behind
  have here : segment ∈ (session.endpoint side).kcp.sndBuf := by
    rw [buffer]
    exact List.mem_cons_self
  have logged := ((coherent.outgoing side).buffer segment here).genuine.lt
  rcases (coherent.outgoing side).held _ (Nat.lt_trans behind logged) with held | arrived
  · have least := coherent.least buffer held
    omega
  · exact ready.expected_missing drained arrived rfl

/-- What is on the wire can be heard. -/
theorem Session.hears {datagram : List UInt8} (member : datagram ∈ session.wire side.other) :
    session.Reaches (session.act side (.input datagram)) := by
  have possible : (IkcpCall.input datagram).Possible (session.wire side.other) := member
  exact Session.reaches_act possible rfl trivial

theorem Session.hear {datagram : List UInt8} (member : datagram ∈ session.wire side) :
    session.Reaches (session.act side.other (.input datagram)) := by
  apply Session.hears
  rw [side.other_other]
  exact member

/-- A side notes what it has already, or expects. -/
theorem Fit.notes (fit : Fit conv stream session) {datagram : List UInt8} {seg : Ikcpseg}
    (member : datagram ∈ session.wire side) (read : seg ∈ heardSegs conv datagram)
    (push : seg.cmd = ikcpCmdPush)
    (near : seg.sn.toNat ≤ (session.endpoint side.other).kcp.rcvNxt.toNat) :
    seg.sn ∈ ((session.act side.other (.input datagram)).endpoint side.other).kcp.acklist.map
      Prod.fst := by
  rcases fit.coherent with ⟨log, coherent⟩
  have room := fit.room side
  have next := (coherent.outgoing side).next
  have window := (coherent.sane side.other).receiving.window
  have heard := fun seg => @Coherent.heard _ _ _ _ coherent side.other datagram
    (by rw [side.other_other]; exact member) seg
  have early : (log side.other.other).length < 2147418112 := by
    rw [side.other_other]
    omega
  rw [session.act_endpoint]
  rw [← coherent.conversation side.other] at read heard
  exact ikcpInput_notes (coherent.outgoing side.other) (coherent.incoming side.other) heard read
    push near early ⟨by omega, (fit.steady side.other).narrow⟩

theorem Fit.conversation (fit : Fit conv stream session) (side : Side) :
    (session.endpoint side).kcp.conv = conv := by
  rcases fit.coherent with ⟨log, coherent⟩
  exact coherent.conversation side

/-- An acknowledge makes a backlog smaller. -/
theorem Fit.removes (fit : Fit conv stream session) {datagram : List UInt8} {seg : Ikcpseg}
    (read : seg ∈ heardSegs conv datagram) (acknowledge : seg.cmd = ikcpCmdAck)
    (there : seg.sn ∈ numbers (session.endpoint side).kcp.sndBuf) :
    (session.act side (.input datagram)).backlog side < session.backlog side := by
  rcases fit.coherent with ⟨log, coherent⟩
  rw [← fit.conversation side] at read
  have removed := ikcpInput_removes (coherent.sane side) read acknowledge
  rcases ikcpInput_backlog (session.endpoint side).kcp datagram with ⟨queue, _, fewer⟩
  rw [Session.backlog, Session.backlog, session.act_endpoint]
  have less : (ikcpInput (session.endpoint side).kcp datagram).1.sndBuf.length <
      (session.endpoint side).kcp.sndBuf.length := by
    have most := fewer.length_le
    rcases Nat.lt_or_eq_of_le most with strict | same
    · rw [numbers, numbers, List.length_map, List.length_map] at strict
      exact strict
    · rw [fewer.eq_of_length same] at removed
      exact absurd there removed
  exact Nat.add_lt_add_of_lt_of_le less (Nat.le_of_eq (congrArg List.length queue))

theorem ikcpFlush_numbers_mem {kcp : Ikcpcb} {sn : UInt32} (member : sn ∈ numbers kcp.sndBuf) :
    sn ∈ numbers (ikcpFlush kcp).1.sndBuf := by
  by_cases started : kcp.updated = 0
  · rw [ikcpFlush, if_pos started]
    exact member
  · rcases ikcpFlush_spec started with ⟨front, back, flushed⟩
    rw [numbers_of_lasting flushed.lasting, numbers, List.map_append]
    exact List.mem_append_left _ member

theorem Pulsed.same {kcp : Ikcpcb} (pulsed : Pulsed session final side.other kcp) :
    final.endpoint side = session.endpoint side := by
  have same := pulsed.other
  rw [side.other_other] at same
  exact same

theorem Session.act_other_endpoint (session : Session) (side : Side) (call : IkcpCall) :
    (session.act side.other call).endpoint side = session.endpoint side := by
  have same := session.act_endpoint_other side.other call
  rw [side.other_other] at same
  exact same

theorem heard_command {seg : Ikcpseg} {command : UInt32} (same : seg.cmd = command)
    (narrow : command % 256 = command) : seg.heard.cmd = command :=
  (congrArg (· % 256) same).trans narrow

/-- The oldest segment in flight can reach the peer, which notes it. -/
theorem Fit.resent (fit : Fit conv stream session) (drained : session.Drained side.other)
    {segment : Ikcpseg} {others : List Ikcpseg}
    (buffer : (session.endpoint side).kcp.sndBuf = segment :: others) :
    Exists fun final => session.Reaches final ∧
      segment.sn ∈ numbers (final.endpoint side).kcp.sndBuf ∧
      segment.sn ∈ (final.endpoint side.other).kcp.acklist.map Prod.fst := by
  have near := fit.oldest_near drained buffer
  have here : segment ∈ (session.endpoint side).kcp.sndBuf := by
    rw [buffer]
    exact List.mem_cons_self
  have push : segment.cmd = ikcpCmdPush := by
    rcases fit.coherent with ⟨log, coherent⟩
    exact ((coherent.outgoing side).buffer segment here).push
  rcases Serial.exists_ahead (session.endpoint side).kcp.current segment.resendts with
    ⟨now, ahead, late⟩
  rcases fit.pulse side ahead with ⟨updated, tsFlush, sent, started, pulsed⟩
  have known := (fit.reaches pulsed.reaches).fit
  rcases pulsed.tells known (fit.conversation side) started with ⟨segs, telling, each⟩
  rcases telling.due segment here (.inr late) with ⟨seg, inside, lasting⟩
  rcases each seg inside with ⟨datagram, member, read, _⟩
  have number : seg.heard.sn = segment.sn :=
    (congrArg Ikcpseg.sn lasting : seg.lasting.sn = segment.lasting.sn)
  have same : seg.cmd = segment.cmd :=
    (congrArg Ikcpseg.cmd lasting : seg.lasting.cmd = segment.lasting.cmd)
  have command : seg.heard.cmd = ikcpCmdPush := heard_command (same.trans push) (by decide)
  have noted := known.notes member read command (by rw [number, pulsed.other]; exact near)
  rw [number] at noted
  refine ⟨_, pulsed.reaches.trans (Session.hear member), ?_, noted⟩
  rw [Session.act_other_endpoint, pulsed.here]
  exact ikcpFlush_numbers_mem (List.mem_map_of_mem here)

/-- With a segment in flight, the backlog can get smaller. -/
theorem Fit.acknowledged (fit : Fit conv stream session)
    (some_ : (session.endpoint side).kcp.sndBuf ≠ []) :
    Exists fun final => session.Reaches final ∧ final.backlog side < session.backlog side := by
  rcases fit.drain side.other with ⟨ready, first, drained, same, _⟩
  rw [side.other_other] at same
  have one := fit.reaches first
  rcases List.exists_cons_of_ne_nil some_ with ⟨segment, others, buffer⟩
  rw [← same] at buffer
  rcases one.fit.resent drained buffer with ⟨noted, second, buffered, listed⟩
  have two := one.trans (one.fit.reaches second)
  rcases two.fit.pulse_now side.other with ⟨updated, tsFlush, answered, started, pulsed⟩
  have three := two.trans (two.fit.reaches pulsed.reaches)
  rcases pulsed.tells three.fit (two.fit.conversation side.other) started with ⟨segs, telling, each⟩
  rcases telling.acks segment.sn listed with ⟨seg, inside, command, number⟩
  rcases each seg inside with ⟨datagram, member, read, _⟩
  have acknowledge : seg.heard.cmd = ikcpCmdAck := heard_command command (by decide)
  have there : seg.heard.sn ∈ numbers (answered.endpoint side).kcp.sndBuf := by
    rw [pulsed.same]
    exact number ▸ buffered
  refine ⟨_, ((first.trans second).trans pulsed.reaches).trans (Session.hears member), ?_⟩
  exact Nat.lt_of_lt_of_le (three.fit.removes read acknowledge there) (three.backlog side)

/-! ## The window of the peer -/

/-- A side with a closed window sets a time to ask for it. -/
theorem Fit.waiting (fit : Fit conv stream session)
    (closed : (session.endpoint side).kcp.rmtWnd = 0) :
    Exists fun final => session.Reaches final ∧ (final.endpoint side).kcp.rmtWnd = 0 ∧
      (final.endpoint side).kcp.probeWait ≠ 0 := by
  by_cases idle : (session.endpoint side).kcp.probeWait = 0
  · rcases fit.pulse_now side with ⟨updated, tsFlush, sent, started, pulsed⟩
    refine ⟨sent, pulsed.reaches, ?_, ?_⟩
    · rw [pulsed.here, (ikcpFlush_keeps _).2.2.2.2.2]
      exact closed
    · rw [pulsed.here]
      exact ikcpFlush_probeWait started closed idle
  · exact ⟨session, .refl session, closed, idle⟩

/-- A drained side has a window that two bytes can tell. -/
theorem unused_ne_zero {kcp : Ikcpcb} (receiving : Receiving kcp) (narrow : kcp.rcvWnd.toNat ≤ 65535)
    (short : kcp.rcvQueue.length < 128) : ikcpWndUnused kcp % 65536 ≠ 0 := by
  have window := receiving.window
  have queued : kcp.nrcvQue.toNat = kcp.rcvQueue.length := by
    rw [receiving.queued, UInt32.toNat_ofNat']
    omega
  have roomy : kcp.nrcvQue < kcp.rcvWnd := by
    rw [UInt32.lt_iff_toNat_lt]
    omega
  have unit : (65536 : UInt32).toNat = 65536 := rfl
  have none_ : (0 : UInt32).toNat = 0 := rfl
  intro closed
  have value := congrArg UInt32.toNat closed
  rw [ikcpWndUnused, if_pos roomy, UInt32.toNat_mod, unit, none_,
    UInt32.toNat_sub_of_le _ _ (UInt32.le_of_lt roomy)] at value
  omega

/-- A side with a closed window can ask for it, and the peer notes the question. -/
theorem Fit.asks (fit : Fit conv stream session)
    (closed : (session.endpoint side).kcp.rmtWnd = 0) :
    Exists fun final => session.Reaches final ∧ Asked (final.endpoint side.other).kcp.probe := by
  rcases fit.waiting closed with ⟨waited, first, shut, waiting⟩
  have one := fit.reaches first
  rcases Serial.exists_ahead (waited.endpoint side).kcp.current (waited.endpoint side).kcp.tsProbe
    with ⟨now, ahead, due⟩
  rcases one.fit.pulse side ahead with ⟨updated, tsFlush, sent, started, pulsed⟩
  have two := one.fit.reaches pulsed.reaches
  rcases pulsed.tells two.fit (one.fit.conversation side) started with ⟨segs, telling, each⟩
  rcases telling.ask (probeWindow_asks shut waiting due) with ⟨seg, inside, command⟩
  rcases each seg inside with ⟨question, member, read, _⟩
  refine ⟨_, (first.trans pulsed.reaches).trans (Session.hear member), ?_⟩
  rw [sent.act_endpoint]
  rw [← two.fit.conversation side.other] at read
  exact ikcpInput_asked read (heard_command command (by decide))

/-- A drained side that has been asked can tell its window, which is open. -/
theorem Fit.answers (fit : Fit conv stream session) (drained : session.Drained side.other)
    (asked : Asked (session.endpoint side.other).kcp.probe) :
    Exists fun final => session.Reaches final ∧ (final.endpoint side).kcp.rmtWnd ≠ 0 := by
  rcases fit.pulse_now side.other with ⟨updated, tsFlush, answered, started, pulsed⟩
  have known := (fit.reaches pulsed.reaches).fit
  rcases pulsed.tells known (fit.conversation side.other) started with ⟨segs, telling, each⟩
  rcases telling.tell (probeWindow_asked asked) with ⟨seg, inside, _⟩
  rcases each seg inside with ⟨answer, member, read, windows⟩
  refine ⟨_, pulsed.reaches.trans (Session.hears member), ?_⟩
  rw [← known.conversation side] at read windows
  rcases fit.coherent with ⟨log, coherent⟩
  rw [answered.act_endpoint, Endpoint.perform, IkcpCall.perform,
    ikcpInput_rmtWnd (List.ne_nil_of_mem read) windows]
  exact unused_ne_zero (coherent.sane side.other).receiving (fit.steady side.other).narrow
    (fit.drained_short drained)

/-- A side asks for a closed window, and the peer opens it. -/
theorem Fit.opened (fit : Fit conv stream session)
    (closed : (session.endpoint side).kcp.rmtWnd = 0) :
    Exists fun final => session.Reaches final ∧ (final.endpoint side).kcp.rmtWnd ≠ 0 := by
  rcases fit.asks closed with ⟨questioned, first, asked⟩
  have one := fit.reaches first
  rcases one.fit.drain side.other with ⟨ready, second, drained, _, kept⟩
  have two := one.fit.reaches second
  rcases two.fit.answers drained (kept asked) with ⟨final, third, open_⟩
  exact ⟨final, (first.trans second).trans third, open_⟩

/-- With an open window and nothing in flight, the next segment gets a number. -/
theorem Fit.numbered (fit : Fit conv stream session)
    (window : (session.endpoint side).kcp.rmtWnd ≠ 0)
    (queue : (session.endpoint side).kcp.sndQueue ≠ []) :
    Exists fun final => session.Reaches final ∧ (final.endpoint side).kcp.sndBuf ≠ [] := by
  rcases fit.pulse_now side with ⟨updated, tsFlush, first, started, pulsed⟩
  by_cases already : (first.endpoint side).kcp.sndBuf = []
  · have known := (fit.reaches pulsed.reaches).fit
    rcases known.pulse_now side with ⟨updated', tsFlush', second, started', pulsed'⟩
    refine ⟨second, pulsed.reaches.trans pulsed'.reaches, ?_⟩
    rw [pulsed'.here]
    rcases known.coherent with ⟨log, coherent⟩
    have waiting : (first.endpoint side).kcp.sndQueue ≠ [] := by
      rcases ikcpFlush_backlog ((session.endpoint side).kcp.clocked
        (session.endpoint side).kcp.current updated tsFlush) with ⟨count, fewer, more, _⟩
      rw [← pulsed.here] at fewer more
      rw [already] at more
      intro none_
      rw [none_] at fewer
      have length := List.length_pos_of_ne_nil queue
      have same : ((session.endpoint side).kcp.clocked (session.endpoint side).kcp.current updated
        tsFlush).sndQueue.length = (session.endpoint side).kcp.sndQueue.length := rfl
      rw [List.length_nil] at fewer more
      omega
    have peer : (first.endpoint side).kcp.rmtWnd ≠ 0 := by
      rw [pulsed.here, (ikcpFlush_keeps _).2.2.2.2.2]
      exact window
    have open_ : (first.endpoint side).kcp.cwnd ≠ 0 := by
      rw [pulsed.here]
      exact ikcpFlush_cwnd started
    exact ikcpFlush_numbers started' (coherent.sane side).sending already waiting
      (known.steady side).own peer open_
  · exact ⟨first, pulsed.reaches, already⟩

/-! ## Everything is delivered -/

/-- A side with something to deliver can bring a segment in flight. -/
theorem Fit.flying (fit : Fit conv stream session) (some_ : 0 < session.backlog side) :
    Exists fun final => session.Reaches final ∧
      (final.backlog side < session.backlog side ∨ (final.endpoint side).kcp.sndBuf ≠ []) := by
  have window : Exists fun middle => session.Reaches middle ∧
      (middle.endpoint side).kcp.rmtWnd ≠ 0 := by
    by_cases closed : (session.endpoint side).kcp.rmtWnd = 0
    · exact fit.opened closed
    · exact ⟨session, .refl session, closed⟩
  rcases window with ⟨middle, first, open_⟩
  have one := fit.reaches first
  by_cases empty : (middle.endpoint side).kcp.sndQueue = []
  · refine ⟨middle, first, ?_⟩
    by_cases nothing : (middle.endpoint side).kcp.sndBuf = []
    · left
      rw [Session.backlog, nothing, empty]
      exact some_
    · exact .inr nothing
  · rcases one.fit.numbered open_ empty with ⟨final, second, flying⟩
    exact ⟨final, first.trans second, .inr flying⟩

/-- A side that has something to deliver can deliver some of it. -/
theorem Fit.progress (fit : Fit conv stream session) (some_ : 0 < session.backlog side) :
    Exists fun final => session.Reaches final ∧ final.backlog side < session.backlog side := by
  rcases fit.flying some_ with ⟨middle, first, less | flying⟩
  · exact ⟨middle, first, less⟩
  · have one := fit.reaches first
    rcases one.fit.acknowledged flying with ⟨final, second, less⟩
    exact ⟨final, first.trans second, Nat.lt_of_lt_of_le less (one.backlog side)⟩

/-- A side can deliver everything. -/
theorem Fit.emptied (fit : Fit conv stream session) (side : Side) :
    Exists fun final => session.Reaches final ∧ final.backlog side = 0 := by
  induction size : session.backlog side using Nat.strong_induction_on generalizing session with
  | _ count inductionHypothesis =>
      by_cases some_ : 0 < session.backlog side
      · rcases fit.progress some_ with ⟨middle, first, less⟩
        rcases inductionHypothesis _ (size ▸ less) (fit.reaches first).fit rfl with
          ⟨final, second, nothing⟩
        exact ⟨final, first.trans second, nothing⟩
      · exact ⟨session, .refl session, Nat.eq_zero_of_not_pos some_⟩

/-- Both sides can deliver everything, and take everything. -/
theorem Fit.settled (fit : Fit conv stream session) :
    Exists fun final => session.Reaches final ∧
      forall side, final.backlog side = 0 ∧ final.Drained side := by
  rcases fit.emptied .left with ⟨one, first, left_⟩
  have fit1 := fit.reaches first
  rcases fit1.fit.emptied .right with ⟨two, second, right_⟩
  have fit2 := fit1.fit.reaches second
  rcases fit2.fit.drain .left with ⟨three, third, drainedLeft, _, _⟩
  have fit3 := fit2.fit.reaches third
  rcases fit3.fit.drain .right with ⟨four, fourth, drainedRight, same, _⟩
  have fit4 := fit3.fit.reaches fourth
  refine ⟨four, ((first.trans second).trans third).trans fourth, ?_⟩
  have least : forall side, two.backlog side = 0 -> four.backlog side = 0 := by
    intro side nothing
    have less := Nat.le_trans (fit4.backlog side) (fit3.backlog side)
    omega
  intro side
  cases side with
  | left =>
      have nothing := fit2.backlog .left
      refine ⟨least .left (by omega), ?_⟩
      have untouched : four.endpoint .left = three.endpoint .left := same
      rw [Session.Drained, untouched]
      exact drainedLeft
  | right => exact ⟨least .right right_, drainedRight⟩

/-- When nothing is left to deliver and nothing to take, everything has been
received. -/
structure Completed (stream : Side -> Int32) (session : Session) (side : Side) : Prop where
  bytes : (session.endpoint side.other).received.flatten = (session.endpoint side).accepted.flatten
  messages : stream side = 0 ->
    (session.endpoint side.other).received = (session.endpoint side).accepted
  queue : (session.endpoint side.other).kcp.rcvQueue = []
  buffer : (session.endpoint side.other).kcp.rcvBuf = []

/-- With nothing in flight, a drained peer expects the end of the log. -/
theorem Ready.whole {log : Side -> List Piece} (ready : Ready conv stream session)
    (coherent : Coherent conv stream log session) (drained : session.Drained side.other)
    (sndBuf : (session.endpoint side).kcp.sndBuf = []) :
    (session.endpoint side.other).kcp.rcvNxt.toNat = (log side).length := by
  have incoming := coherent.incoming side.other
  rw [side.other_other] at incoming
  apply Nat.le_antisymm incoming.expected
  apply Nat.le_of_not_lt
  intro less
  rcases (coherent.outgoing side).held _ less with held | arrived
  · rw [sndBuf] at held
    cases held
  · exact ready.expected_missing drained arrived rfl

/-- A side that expects the end of the log holds nothing out of order. -/
theorem Coherent.buffer_eq_nil {log : Side -> List Piece}
    (coherent : Coherent conv stream log session)
    (whole : (session.endpoint side.other).kcp.rcvNxt.toNat = (log side).length) :
    (session.endpoint side.other).kcp.rcvBuf = [] := by
  have incoming := coherent.incoming side.other
  rw [side.other_other] at incoming
  apply List.eq_nil_iff_forall_not_mem.mpr
  intro seg member
  have below := (incoming.buffer seg member).lt
  have above := (incoming.ascending (coherent.sane side.other).receiving).2 seg.sn.toNat
    (List.mem_map_of_mem (List.mem_map_of_mem member))
  omega

/-- A drained side whose queue consists of whole messages has an empty queue. -/
theorem Ready.queue_eq_nil {units : List (List UInt8)} (ready : Ready conv stream session)
    (drained : session.Drained side)
    (behind : Messages Piece.left Piece.data units (pieces (session.endpoint side).kcp.rcvQueue)) :
    (session.endpoint side).kcp.rcvQueue = [] := by
  rcases ready.coherent with ⟨log, coherent⟩
  cases start : (session.endpoint side).kcp.rcvQueue with
  | nil => rfl
  | cons seg others =>
      rw [start] at behind
      have enough := behind.enough
      have member : seg ∈ (session.endpoint side).kcp.rcvQueue := by
        rw [start]
        exact List.mem_cons_self
      have cut := unfinished_queue (coherent.sane side) (ready.modest member).frg start drained
      have length : (others.map Ikcpseg.piece).length = others.length := List.length_map _
      have left : seg.piece.left = seg.frg.toNat := rfl
      omega

theorem Ready.completed (ready : Ready conv stream session) (nothing : session.backlog side = 0)
    (drained : session.Drained side.other) : Completed stream session side := by
  rcases ready.coherent with ⟨log, coherent⟩
  have incoming := coherent.incoming side.other
  rw [side.other_other] at incoming
  have sndQueue : (session.endpoint side).kcp.sndQueue = [] :=
    List.eq_nil_of_length_eq_zero (Nat.eq_zero_of_add_eq_zero_left nothing)
  have sndBuf : (session.endpoint side).kcp.sndBuf = [] :=
    List.eq_nil_of_length_eq_zero (Nat.eq_zero_of_add_eq_zero_right nothing)
  have whole := ready.whole coherent drained sndBuf
  rcases incoming.taken with ⟨consumed, equal, front⟩
  rcases (coherent.outgoing side).messages with ⟨units, sent, same, modal⟩
  rw [whole, List.take_length] at equal
  rw [sndQueue, pieces, List.map_nil, List.append_nil, ← equal] at sent
  rcases front.rest sent with ⟨later, split, behind⟩
  have queue := ready.queue_eq_nil drained behind
  rw [queue] at behind
  rw [behind.of_nil, List.append_nil] at split
  refine ⟨?_, ?_, queue, coherent.buffer_eq_nil whole⟩
  · rw [← split, same]
  · intro mode
    rw [← split, modal mode]

end

/-- The left side has sent three bytes, and no datagram has arrived. -/
def lost : List (Side × IkcpCall) :=
  [(.left, .send [1, 2, 3]), (.left, .update 0), (.left, .update 100)]

/-- From every session that a moderate run reaches, calm calls lead to one where
each side has received everything that the other side had accepted, and nothing is
left in any queue. -/
theorem delivered_of_run {conv : UInt32} {stream : Side -> Int32}
    {events : List (Side × IkcpCall)} {session : Session}
    (run : Run (Restrict Session.Moderate (Stepping Session.next)) (Session.fresh conv stream) events
      session)
    (room : forall side, (session.endpoint side).kcp.sndNxt.toNat +
      (session.endpoint side).kcp.sndQueue.length < 2147418112) :
    Exists fun later => Exists fun final =>
      Run (Restrict Session.Calm (Stepping Session.next)) session later final ∧
      forall side, Completed stream final side ∧ final.backlog side = 0 ∧
        (final.endpoint side).accepted = (session.endpoint side).accepted := by
  have fit : Fit conv stream session := ⟨ready_of_run run, room⟩
  rcases fit.settled with ⟨final, reaches, each⟩
  have eased := fit.reaches reaches
  rcases reaches with ⟨later, continuation⟩
  refine ⟨later, final, continuation, ?_⟩
  intro side
  exact ⟨eased.fit.completed (each side).1 (each side.other).2, (each side).1, eased.accepted side⟩

theorem delivered_of_run_lost :
    Exists fun session => Run (Restrict Session.Moderate (Stepping Session.next))
        (Session.fresh 7 fun _ => 0) lost session ∧
      (session.endpoint .left).accepted = [[1, 2, 3]] ∧
      Exists fun later => Exists fun final =>
        Run (Restrict Session.Calm (Stepping Session.next)) session later final ∧
        forall side, Completed (fun _ => 0) final side ∧ final.backlog side = 0 ∧
          (final.endpoint side).accepted = (session.endpoint side).accepted := by
  have facts : (execute (guarded Session.Moderate Session.next) (Session.fresh 7 fun _ => 0) lost).map
      (fun session => ((session.endpoint .left).accepted,
        ((session.endpoint .left).kcp.sndNxt, (session.endpoint .left).kcp.sndQueue),
        (session.endpoint .right).kcp.sndNxt, (session.endpoint .right).kcp.sndQueue)) =
      some ([[1, 2, 3]], (1, []), (0, [])) := by
    decide
  rcases Run.of_guarded_map facts with ⟨session, run, same⟩
  simp only [Prod.mk.injEq] at same
  rcases same with ⟨accepted, ⟨leftNext, leftQueue⟩, rightNext, rightQueue⟩
  refine ⟨session, run, accepted, delivered_of_run run ?_⟩
  intro side
  cases side with
  | left =>
      rw [leftNext, leftQueue]
      decide
  | right =>
      rw [rightNext, rightQueue]
      decide

end Kcp
end ServerTech
