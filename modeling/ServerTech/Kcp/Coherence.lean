import ServerTech.Kcp.Session

namespace ServerTech
namespace Kcp

open Fragmenting (Messages)
open Reassembly (Genuine Arrived)

/-!
# What one call does to the logs

Each call keeps what an endpoint sends and what it receives in order.  A call
that numbers segments makes the log longer, and nothing else does.  What has
arrived at an endpoint stays arrived, so whatever the peer has concluded from
an acknowledge stays right.
-/

variable {conv : UInt32} {stream : Int32} {log inLog : List Piece} {arrived : Nat -> Prop}

/-- What has arrived in a first receive window has arrived in a second one. -/
structure Growing (before : UInt32) (rcvBuf : List Ikcpseg) (after : UInt32)
    (later : List Ikcpseg) : Prop where
  expected : before.toNat ≤ after.toNat
  arrived : forall number, Arrived before.toNat ((numbers rcvBuf).map UInt32.toNat) number ->
    Arrived after.toNat ((numbers later).map UInt32.toNat) number

/-- What has arrived stays arrived. -/
abbrev Grows (before after : Ikcpcb) : Prop :=
  Growing before.rcvNxt before.rcvBuf after.rcvNxt after.rcvBuf

theorem Growing.refl (rcvNxt : UInt32) (rcvBuf : List Ikcpseg) :
    Growing rcvNxt rcvBuf rcvNxt rcvBuf where
  expected := Nat.le_refl _
  arrived := fun _ there => there

theorem Growing.trans {first second third : UInt32} {one two three : List Ikcpseg}
    (earlier : Growing first one second two) (later : Growing second two third three) :
    Growing first one third three where
  expected := Nat.le_trans earlier.expected later.expected
  arrived := fun number there => later.arrived number (earlier.arrived number there)

theorem Passing.mono {kcp after : Ikcpcb} {seg : Ikcpseg} (passing : Passing conv log kcp seg)
    (grows : Grows kcp after) (more : List Piece) : Passing conv (log ++ more) after seg where
  wirable := passing.wirable
  narrow := passing.narrow
  una := Nat.le_trans passing.una grows.expected
  ack := fun acknowledge => grows.arrived _ (passing.ack acknowledge)
  push := fun push => ⟨(passing.push push).1, (passing.push push).2.append more⟩

theorem SendLog.mono {arrived later : Nat -> Prop} {sndNxt : UInt32}
    {sndBuf sndQueue : List Ikcpseg} {accepted : List (List UInt8)}
    (outgoing : SendLog conv stream log arrived sndNxt sndBuf sndQueue accepted)
    (more : forall number, arrived number -> later number) :
    SendLog conv stream log later sndNxt sndBuf sndQueue accepted :=
  { outgoing with held := fun number inside => (outgoing.held number inside).imp_right (more number) }

theorem ReceiveLog.mono {rcvNxt : UInt32} {rcvBuf rcvQueue : List Ikcpseg}
    {acklist : List (UInt32 × UInt32)} {received : List (List UInt8)}
    (incoming : ReceiveLog log rcvNxt rcvBuf rcvQueue acklist received) (more : List Piece)
    (small : (log ++ more).length < 2147483648) :
    ReceiveLog (log ++ more) rcvNxt rcvBuf rcvQueue acklist received where
  small := small
  expected := by
    rw [List.length_append]
    exact Nat.le_add_right_of_le incoming.expected
  buffer := fun seg member => (incoming.buffer seg member).append more
  taken := by
    rw [List.take_append_of_le_length incoming.expected]
    exact incoming.taken
  acks := incoming.acks

/-! ## Moving available segments -/

/-- Genuine segments with consecutive numbers are the next pieces of the log. -/
theorem consecutive_genuine {next : UInt32} {segments : List Ikcpseg}
    (small : log.length < 2147483648) (taken : next.toNat ≤ log.length)
    (consecutive : numbers segments = Serial.consecutive next segments.length)
    (genuine : forall seg, seg ∈ segments -> Genuine log seg.sn.toNat seg.piece) :
    (forall offset piece, (pieces segments)[offset]? = some piece ->
      Genuine log (next.toNat + offset) piece) ∧
    (next + UInt32.ofNat segments.length).toNat = next.toNat + segments.length ∧
    next.toNat + segments.length ≤ log.length ∧
    forall seg, seg ∈ segments -> seg.sn.toNat < next.toNat + segments.length := by
  induction segments generalizing next with
  | nil =>
      have none_ : UInt32.ofNat 0 = 0 := rfl
      refine ⟨fun offset piece found => ?_, ?_, taken, fun _ member => (nomatch member)⟩
      · rw [pieces, List.map_nil, List.getElem?_nil] at found
        cases found
      · rw [List.length_nil, none_, UInt32.add_zero]
        rfl
  | cons seg others inductionHypothesis =>
      rw [numbers, List.map_cons, List.length_cons, Serial.consecutive] at consecutive
      rcases List.cons.inj consecutive with ⟨first, rest⟩
      have head := genuine seg List.mem_cons_self
      rw [first] at head
      have inside := head.lt
      have step : (next + 1).toNat = next.toNat + 1 := by
        rw [UInt32.toNat_add, UInt32.toNat_one]
        omega
      rcases inductionHypothesis (by rw [step]; exact inside) rest
        (fun other member => genuine other (List.mem_cons_of_mem _ member)) with
        ⟨later, count, room, below⟩
      rw [Serial.succ_add_ofNat] at count
      rw [step] at count room below later
      refine ⟨?_, ?_, ?_, ?_⟩
      · intro offset piece found
        cases offset with
        | zero =>
            cases found
            exact head
        | succ offset =>
            have deeper := later offset piece found
            rw [Nat.add_right_comm] at deeper
            exact deeper
      · rw [List.length_cons, count]
        omega
      · rw [List.length_cons]
        omega
      · intro other member
        rw [List.length_cons]
        rcases List.mem_cons.mp member with rfl | deep
        · rw [first]
          omega
        · have less := below other deep
          omega

/-- Moving available segments goes on with the log. -/
theorem ReceiveLog.moved {kcp : Ikcpcb} {front back : List Ikcpseg}
    {received : List (List UInt8)} (incoming : Incoming inLog kcp received)
    (movable : Movable kcp front back) :
    Incoming inLog (kcp.moved front back) received ∧ Grows kcp (kcp.moved front back) := by
  have genuine : forall seg, seg ∈ front -> Genuine inLog seg.sn.toNat seg.piece := by
    intro seg member
    apply incoming.buffer
    rw [movable.split]
    exact List.mem_append_left _ member
  rcases consecutive_genuine incoming.small incoming.expected movable.numbers genuine with
    ⟨each, count, room, below⟩
  have kept : forall number, number ∈ (numbers kcp.rcvBuf).map UInt32.toNat ->
      number < kcp.rcvNxt.toNat + front.length ∨ number ∈ (numbers back).map UInt32.toNat := by
    intro number member
    rw [movable.split, numbers, List.map_append, List.map_append] at member
    rcases List.mem_append.mp member with moved | stayed
    · rw [List.map_map] at moved
      rcases List.mem_map.mp moved with ⟨seg, inside, rfl⟩
      exact .inl (below seg inside)
    · exact .inr stayed
  have grows : Grows kcp (kcp.moved front back) := by
    constructor
    · exact Nat.le_trans (Nat.le_add_right _ _) (Nat.le_of_eq count.symm)
    · intro number there
      have further : Arrived (kcp.rcvNxt.toNat + front.length)
          ((numbers back).map UInt32.toNat) number := there.mono (Nat.le_add_right _ _) kept
      rw [← count] at further
      exact further
  refine ⟨⟨incoming.small, ?_, ?_, ?_, ?_⟩, grows⟩
  · exact Nat.le_trans (Nat.le_of_eq count) room
  · intro seg member
    apply incoming.buffer
    rw [movable.split]
    exact List.mem_append_right _ member
  · rcases incoming.taken with ⟨consumed, equal, whole⟩
    refine ⟨consumed, ?_, whole⟩
    have length : (pieces front).length = front.length := List.length_map _
    have queue : pieces (kcp.moved front back).rcvQueue = pieces kcp.rcvQueue ++ pieces front :=
      List.map_append
    have longer := Reassembly.take_append_genuine each incoming.expected
    rw [length, ← count] at longer
    rw [queue, ← List.append_assoc, equal]
    exact longer.symm
  · intro sn member
    exact grows.arrived _ (incoming.acks sn member)

/-! ## Input -/

/-- What a segment from the peer says to an endpoint: its pushed data are
genuine, and what it acknowledges has arrived. -/
structure Heard (log inLog : List Piece) (arrived : Nat -> Prop) (seg : Ikcpseg) : Prop where
  una : seg.una.toNat < 2147483648 ∧ forall number, number < seg.una.toNat -> arrived number
  ack : seg.cmd = ikcpCmdAck -> arrived seg.sn.toNat
  push : seg.cmd = ikcpCmdPush -> Genuine inLog seg.sn.toNat seg.piece

/-- Segments that have arrived are taken from the send buffer. -/
theorem SendLog.keeping {sndNxt : UInt32} {sndBuf kept sndQueue : List Ikcpseg}
    {accepted : List (List UInt8)}
    (outgoing : SendLog conv stream log arrived sndNxt sndBuf sndQueue accepted)
    (part : forall seg, seg ∈ kept -> seg ∈ sndBuf)
    (lost : forall seg, seg ∈ sndBuf -> seg ∈ kept ∨ arrived seg.sn.toNat) :
    SendLog conv stream log arrived sndNxt kept sndQueue accepted :=
  { outgoing with
    buffer := fun seg member => outgoing.buffer seg (part seg member)
    held := by
      intro number inside
      rcases outgoing.held number inside with buffered | there
      · rw [numbers, List.map_map] at buffered
        rcases List.mem_map.mp buffered with ⟨seg, member, rfl⟩
        rcases lost seg member with stays | there
        · left
          rw [numbers, List.map_map]
          exact List.mem_map_of_mem stays
        · exact .inr there
      · exact .inr there }

/-- A genuine segment joins the receive buffer, and its acknowledge is noted. -/
theorem ReceiveLog.inserted {kcp : Ikcpcb} {seg : Ikcpseg} {rcvBuf : List Ikcpseg}
    {received : List (List UInt8)} (incoming : Incoming inLog kcp received)
    (genuine : Genuine inLog seg.sn.toNat seg.piece)
    (placed : Serial.insert Ikcpseg.sn seg kcp.rcvBuf = some rcvBuf) :
    Incoming inLog ((ikcpAckPush kcp seg.sn seg.ts).inserted rcvBuf) received ∧
      Grows kcp ((ikcpAckPush kcp seg.sn seg.ts).inserted rcvBuf) := by
  rcases Serial.insert_some placed with ⟨front, back, split, rfl, _⟩
  have wider : forall other, other ∈ front ++ seg :: back -> other = seg ∨ other ∈ kcp.rcvBuf := by
    intro other member
    rw [split]
    rcases List.mem_append.mp member with before | after
    · exact .inr (List.mem_append_left _ before)
    · rcases List.mem_cons.mp after with same | behind
      · exact .inl same
      · exact .inr (List.mem_append_right _ behind)
  have kept : forall other, other ∈ kcp.rcvBuf -> other ∈ front ++ seg :: back := by
    intro other member
    rw [split] at member
    rcases List.mem_append.mp member with before | behind
    · exact List.mem_append_left _ before
    · exact List.mem_append_right _ (List.mem_cons_of_mem _ behind)
  have grows : Grows kcp ((ikcpAckPush kcp seg.sn seg.ts).inserted (front ++ seg :: back)) := by
    refine ⟨Nat.le_refl _, fun number there => there.mono (Nat.le_refl _) ?_⟩
    intro number member
    rw [numbers, List.map_map] at member
    rcases List.mem_map.mp member with ⟨other, inside, rfl⟩
    right
    rw [numbers, List.map_map]
    exact List.mem_map_of_mem (kept other inside)
  refine ⟨⟨incoming.small, incoming.expected, ?_, incoming.taken, ?_⟩, grows⟩
  · intro other member
    rcases wider other member with rfl | old
    · exact genuine
    · exact incoming.buffer other old
  · intro sn member
    have list : (kcp.acklist ++ [(seg.sn, seg.ts)]).map Prod.fst =
        kcp.acklist.map Prod.fst ++ [seg.sn] := List.map_append
    have noted : sn ∈ kcp.acklist.map Prod.fst ++ [seg.sn] := by
      rw [← list]
      exact member
    rcases List.mem_append.mp noted with old | new
    · exact grows.arrived _ (incoming.acks sn old)
    · right
      rw [List.mem_singleton.mp new, numbers, List.map_map]
      exact List.mem_map_of_mem (List.mem_append_right front List.mem_cons_self)

/-- An acknowledge of something that has arrived is noted. -/
theorem ReceiveLog.acknowledged {kcp : Ikcpcb} {sn : UInt32} {received : List (List UInt8)}
    (incoming : Incoming inLog kcp received) (ts : UInt32) (there : HasArrived kcp sn.toNat) :
    Incoming inLog (ikcpAckPush kcp sn ts) received :=
  { incoming with
    acks := by
      intro other member
      have list : (kcp.acklist ++ [(sn, ts)]).map Prod.fst = kcp.acklist.map Prod.fst ++ [sn] :=
        List.map_append
      have noted : other ∈ kcp.acklist.map Prod.fst ++ [sn] := by
        rw [← list]
        exact member
      rcases List.mem_append.mp noted with old | new
      · exact incoming.acks other old
      · rw [List.mem_singleton.mp new]
        exact there }

/-- A change by a segment from the peer keeps both directions in order. -/
theorem inputStep_coherent {kcp after : Ikcpcb} {seg : Ikcpseg}
    {accepted received : List (List UInt8)}
    (outgoing : Outgoing conv stream log arrived kcp accepted)
    (incoming : Incoming inLog kcp received) (heard : Heard log inLog arrived seg)
    (step : InputStep seg kcp after) :
    Outgoing conv stream log arrived after accepted ∧ Incoming inLog after received ∧
      Grows kcp after := by
  cases step with
  | measure rmtWnd probe srtt rttval rto _ _ => exact ⟨outgoing, incoming, .refl _ _⟩
  | @una front back split earlier =>
      refine ⟨outgoing.keeping ?_ ?_, incoming, .refl _ _⟩
      · intro other member
        rw [split]
        exact List.mem_append_right _ member
      · intro other member
        have genuine := (outgoing.buffer other member).genuine
        rw [split] at member
        rcases List.mem_append.mp member with gone | stays
        · have below := earlier other gone
          have inside := genuine.lt
          have small := outgoing.small
          rw [itimediff, Serial.difference_of_toNat heard.una.1 (by omega)] at below
          exact .inr (heard.una.2 _ (by omega))
        · exact .inl stays
  | @ack front back other acknowledge split number =>
      refine ⟨outgoing.keeping ?_ ?_, incoming, .refl _ _⟩
      · intro another member
        rw [split]
        rcases List.mem_append.mp member with before | behind
        · exact List.mem_append_left _ before
        · exact List.mem_append_right _ (List.mem_cons_of_mem _ behind)
      · intro another member
        rw [split] at member
        rcases List.mem_append.mp member with before | behind
        · exact .inl (List.mem_append_left _ before)
        · rcases List.mem_cons.mp behind with rfl | later
          · rw [number]
            exact .inr (heard.ack acknowledge)
          · exact .inl (List.mem_append_right _ later)
  | late push late =>
      have inside := (heard.push push).lt
      have small := incoming.small
      have expected := incoming.expected
      rw [itimediff, Serial.difference_of_toNat (by omega) (by omega)] at late
      exact ⟨outgoing, incoming.acknowledged _ (.inl (by omega)), .refl _ _⟩
  | repeated push known movable =>
      have there : HasArrived kcp seg.sn.toNat := .inr (List.mem_map_of_mem known)
      have pushed : Incoming inLog (ikcpAckPush kcp seg.sn seg.ts) received :=
        incoming.acknowledged seg.ts there
      rcases pushed.moved movable with ⟨moved, grows⟩
      exact ⟨outgoing, moved, grows⟩
  | data push expected inside placed movable =>
      rcases incoming.inserted (heard.push push) placed with ⟨inserted, first⟩
      rcases inserted.moved movable with ⟨moved, second⟩
      exact ⟨outgoing, moved, first.trans second⟩

theorem inputSteps_coherent {kcp after : Ikcpcb} {known : Ikcpseg -> Prop}
    {accepted received : List (List UInt8)}
    (outgoing : Outgoing conv stream log arrived kcp accepted)
    (incoming : Incoming inLog kcp received)
    (heard : forall seg, known seg -> Heard log inLog arrived seg)
    (steps : InputSteps known kcp after) :
    Outgoing conv stream log arrived after accepted ∧ Incoming inLog after received ∧
      Grows kcp after := by
  induction steps with
  | refl => exact ⟨outgoing, incoming, .refl _ _⟩
  | snoc _ met step inductionHypothesis =>
      rcases inductionHypothesis with ⟨sent, taken, grows⟩
      rcases inputStep_coherent sent taken (heard _ met) step with ⟨sending, taking, later⟩
      exact ⟨sending, taking, grows.trans later⟩

/-- Segments that differ in what changes from flush to flush carry the same. -/
theorem Carrying.of_lasting {seg other : Ikcpseg} (carrying : Carrying conv log seg)
    (same : seg.lasting = other.lasting) : Carrying conv log other where
  conversation := by
    rw [← carrying.conversation]
    exact (congrArg (fun seg => seg.conv) same).symm
  push := by
    rw [← carrying.push]
    exact (congrArg (fun seg => seg.cmd) same).symm
  genuine := by
    have sn : seg.sn = other.sn := congrArg (fun seg => seg.sn) same
    have piece : seg.piece = other.piece := congrArg (fun seg => seg.piece) same
    rw [← sn, ← piece]
    exact carrying.genuine

/-- Counting and scheduling change nothing that is sent. -/
theorem SendLog.relabel {sndNxt : UInt32} {sndBuf relabelled sndQueue : List Ikcpseg}
    {accepted : List (List UInt8)}
    (outgoing : SendLog conv stream log arrived sndNxt sndBuf sndQueue accepted)
    (same : relabelled.map Ikcpseg.lasting = sndBuf.map Ikcpseg.lasting) :
    SendLog conv stream log arrived sndNxt relabelled sndQueue accepted :=
  { outgoing with
    buffer := by
      intro seg member
      have lasting := List.mem_map_of_mem (f := Ikcpseg.lasting) member
      rw [same] at lasting
      rcases List.mem_map.mp lasting with ⟨old, inside, equal⟩
      exact (outgoing.buffer old inside).of_lasting equal
    held := by
      rw [numbers_of_lasting same]
      exact outgoing.held }

/-- A whole datagram from the peer. -/
theorem input_coherent {kcp : Ikcpcb} {data : List UInt8} {accepted received : List (List UInt8)}
    (outgoing : Outgoing conv stream log arrived kcp accepted)
    (incoming : Incoming inLog kcp received)
    (heard : forall seg, seg ∈ heardSegs kcp.conv data -> Heard log inLog arrived seg) :
    Outgoing conv stream log arrived (ikcpInput kcp data).1 accepted ∧
      Incoming inLog (ikcpInput kcp data).1 received ∧ Grows kcp (ikcpInput kcp data).1 := by
  rcases ikcpInput_steps kcp data with ⟨middle, sndBuf, cwnd, incr, steps, same, equal⟩
  rcases inputSteps_coherent outgoing incoming heard steps with ⟨sent, taken, grows⟩
  rw [equal]
  exact ⟨sent.relabel same, taken, grows⟩

/-- The command of a segment on the wire is heard in full. -/
theorem Passing.heard_cmd {peer : Ikcpcb} {seg : Ikcpseg} (passing : Passing conv inLog peer seg) :
    seg.heard.cmd = seg.cmd := by
  apply UInt32.toNat_inj.mp
  exact (UInt32.toNat_mod _ _).trans (Nat.mod_eq_of_lt passing.narrow)

/-- What is read from a datagram of the peer is right. -/
theorem Passing.heard {peer : Ikcpcb} {seg : Ikcpseg} (passing : Passing conv inLog peer seg)
    (expected : peer.rcvNxt.toNat < 2147483648) :
    Heard log inLog (HasArrived peer) seg.heard where
  una := by
    have una : seg.heard.una = seg.una := rfl
    have low := passing.una
    rw [una]
    exact ⟨by omega, fun number less => .inl (by omega)⟩
  ack := by
    rw [passing.heard_cmd]
    exact passing.ack
  push := by
    rw [passing.heard_cmd]
    intro push
    rcases passing.push push with ⟨narrow, genuine⟩
    have frg : seg.frg % 256 = seg.frg := by
      apply UInt32.toNat_inj.mp
      exact (UInt32.toNat_mod _ _).trans (Nat.mod_eq_of_lt narrow)
    have piece : seg.heard.piece = seg.piece := by
      rw [Ikcpseg.piece, Ikcpseg.heard, frg, Ikcpseg.piece]
    rw [piece]
    exact genuine

/-! ## Receiving -/

theorem Piece.left_eq_zero_iff {seg : Ikcpseg} : seg.piece.left = 0 <-> seg.frg = 0 := by
  rw [Piece.left, ← UInt32.toNat_inj, UInt32.toNat_zero, Ikcpseg.piece]

theorem merge_pieces (segments : List Ikcpseg) :
    Fragmenting.merge Piece.left (pieces segments) =
      (pieces (mergeFragment segments).1, pieces (mergeFragment segments).2) := by
  induction segments with
  | nil => rfl
  | cons seg others inductionHypothesis =>
      rw [pieces, List.map_cons, Fragmenting.merge, mergeFragment]
      by_cases last : seg.frg = 0
      · rw [if_pos (Piece.left_eq_zero_iff.mpr last), if_pos last]
        rfl
      · have more : ¬ seg.piece.left = 0 := fun none_ => last (Piece.left_eq_zero_iff.mp none_)
        rw [pieces] at inductionHypothesis
        rw [if_neg more, if_neg last, inductionHypothesis]
        rfl

theorem flatMap_pieces (segments : List Ikcpseg) :
    (pieces segments).flatMap Piece.data = segmentBytes segments := by
  rw [pieces, List.flatMap_map]
  rfl

/-- When the size of a message is known, all its fragments are in the queue. -/
theorem enough_fragments {kcp : Ikcpcb} (sane : Sane kcp) {seg : Ikcpseg} {others : List Ikcpseg}
    (queue : kcp.rcvQueue = seg :: others) (modest : seg.frg.toNat < 128)
    (known : 0 ≤ ikcpPeeksize kcp) : seg.frg.toNat + 1 ≤ kcp.rcvQueue.length := by
  have short := sane.receiving.short
  unfold ikcpPeeksize at known
  simp only [queue] at known
  by_cases last : seg.frg = 0
  · rw [last, queue, UInt32.toNat_zero, List.length_cons]
    omega
  · rw [if_neg last] at known
    by_cases few : kcp.nrcvQue < seg.frg + 1
    · rw [if_pos few] at known
      omega
    · have count := UInt32.le_iff_toNat_le.mp (UInt32.not_lt.mp few)
      rw [sane.receiving.queued, UInt32.toNat_add, UInt32.toNat_one, UInt32.toNat_ofNat'] at count
      omega

/-- The first message is taken from the queue. -/
theorem ReceiveLog.withoutMessage {kcp : Ikcpcb} {received : List (List UInt8)}
    {units : List (List UInt8)} {more : List Piece} (sane : Sane kcp)
    (incoming : Incoming inLog kcp received)
    (whole : Messages Piece.left Piece.data units (inLog ++ more))
    (modest : forall piece, piece ∈ inLog -> Modest piece) (some_ : kcp.rcvQueue ≠ [])
    (known : 0 ≤ ikcpPeeksize kcp) :
    Incoming inLog kcp.withoutMessage
      (received ++ [segmentBytes (mergeFragment kcp.rcvQueue).1]) := by
  rcases incoming.taken with ⟨consumed, equal, front⟩
  refine { incoming with taken := ?_ }
  cases queue : kcp.rcvQueue with
  | nil => exact absurd queue some_
  | cons seg others =>
      have start : pieces kcp.rcvQueue = seg.piece :: pieces others := by
        rw [queue]
        rfl
      have inside : seg.piece ∈ inLog := by
        apply List.mem_of_mem_take (i := kcp.rcvNxt.toNat)
        rw [← equal, start]
        exact List.mem_append_right _ List.mem_cons_self
      have enough := enough_fragments sane queue (modest _ inside).frg known
      have split : inLog ++ more =
          consumed ++ (pieces kcp.rcvQueue ++ (inLog.drop kcp.rcvNxt.toNat ++ more)) := by
        rw [← List.append_assoc, equal, ← List.append_assoc, List.take_append_drop]
      rw [split] at whole
      rcases front.rest whole with ⟨later, _, behind⟩
      have size : seg.piece.left + 1 ≤ (pieces kcp.rcvQueue).length := by
        rw [pieces, List.length_map]
        exact enough
      rcases behind.first start size with ⟨countdown, joined⟩
      rw [merge_pieces] at countdown joined
      refine ⟨consumed ++ pieces (mergeFragment kcp.rcvQueue).1, ?_, ?_⟩
      · have rest : kcp.withoutMessage.rcvQueue = (mergeFragment kcp.rcvQueue).2 := rfl
        rw [rest, List.append_assoc, joined]
        exact equal
      · have message := front.append countdown.messages
        rw [flatMap_pieces, queue] at message
        rw [queue]
        exact message

/-- A call to receive. -/
theorem recv_coherent {kcp : Ikcpcb} {accepted received : List (List UInt8)} {len : Int32}
    {units : List (List UInt8)} {more : List Piece} (sane : Sane kcp)
    (outgoing : Outgoing conv stream log arrived kcp accepted)
    (incoming : Incoming inLog kcp received)
    (whole : Messages Piece.left Piece.data units (inLog ++ more))
    (modest : forall piece, piece ∈ inLog -> Modest piece) :
    Outgoing conv stream log arrived (ikcpRecv kcp len).1 accepted ∧
      Incoming inLog (ikcpRecv kcp len).1 (received ++ (IkcpCall.recv len).receives kcp) ∧
      Grows kcp (ikcpRecv kcp len).1 := by
  rcases ikcpRecv_cases kcp len with ⟨code, negative, equal⟩ | ⟨probe, some_, known, equal⟩
  · have nothing : (IkcpCall.recv len).receives kcp = [] := by
      rw [IkcpCall.receives, equal]
      exact if_neg fun both => absurd both.2 (Int.not_le.mpr negative)
    rw [nothing, equal, List.append_nil]
    exact ⟨outgoing, incoming, .refl _ _⟩
  · have taken : Outgoing conv stream log arrived
        (if len < 0 then kcp else kcp.withoutMessage) accepted ∧
        Incoming inLog (if len < 0 then kcp else kcp.withoutMessage)
          (received ++ (IkcpCall.recv len).receives kcp) ∧
        Grows kcp (if len < 0 then kcp else kcp.withoutMessage) := by
      rw [IkcpCall.receives, equal]
      by_cases peek : len < 0
      · have looked : ¬ (0 ≤ len ∧
            0 ≤ ((segmentBytes (mergeFragment kcp.rcvQueue).1).length : Int)) :=
          fun both => absurd both.1 (Int32.not_le.mpr peek)
        simp only [if_pos peek, if_neg looked, List.append_nil]
        exact ⟨outgoing, incoming, .refl _ _⟩
      · have took : 0 ≤ len ∧
            0 ≤ ((segmentBytes (mergeFragment kcp.rcvQueue).1).length : Int) :=
          ⟨Int32.not_lt.mp peek, Int.natCast_nonneg _⟩
        simp only [if_neg peek, if_pos took]
        exact ⟨outgoing, incoming.withoutMessage sane whole modest some_ known, .refl _ _⟩
    rcases taken with ⟨sent, took, first⟩
    rcases moveAvailable_spec (if len < 0 then kcp else kcp.withoutMessage) with
      ⟨front, back, movable, moved⟩
    rcases took.moved movable with ⟨there, second⟩
    rw [equal, moved]
    exact ⟨sent, there, first.trans second⟩

/-! ## Sending -/

theorem fragments_modest {kcp : Ikcpcb} {count : Nat} {buffer : List UInt8} {seg : Ikcpseg}
    (few : count ≤ 128) (size : kcp.mss.toNat < 2147483648)
    (member : seg ∈ fragments kcp count buffer) : Modest seg.piece := by
  refine ⟨?_, Nat.lt_of_le_of_lt (fragments_length_le member) size⟩
  induction count generalizing buffer with
  | zero => cases member
  | succ later inductionHypothesis =>
      rcases List.mem_cons.mp member with rfl | deep
      · rw [Ikcpseg.piece, Ikcpseg.new]
        split
        · rw [UInt32.toNat_ofNat']
          omega
        · exact Nat.zero_lt_succ _
      · exact inductionHypothesis (Nat.le_of_succ_le few) deep

theorem fragments_single {kcp : Ikcpcb} {count : Nat} {buffer : List UInt8} {seg : Ikcpseg}
    (streaming : kcp.stream ≠ 0) (member : seg ∈ fragments kcp count buffer) :
    seg.piece.left = 0 := by
  induction count generalizing buffer with
  | zero => cases member
  | succ later inductionHypothesis =>
      rcases List.mem_cons.mp member with rfl | deep
      · rw [if_neg streaming]
        rfl
      · exact inductionHypothesis deep

/-- The fragments of one buffer count down. -/
theorem fragments_countdown {kcp : Ikcpcb} (whole : kcp.stream = 0) {later : Nat}
    (few : later < 4294967296) (buffer : List UInt8) :
    Fragmenting.Countdown Piece.left later (pieces (fragments kcp (later + 1) buffer)) := by
  induction later generalizing buffer with
  | zero =>
      rw [fragments, if_pos whole]
      exact .last rfl
  | succ later inductionHypothesis =>
      rw [fragments, if_pos whole]
      refine .more ?_ (inductionHypothesis (Nat.lt_of_succ_lt few) _)
      exact (UInt32.toNat_ofNat').trans (Nat.mod_eq_of_lt few)

/-- In streaming mode only the bytes of the queue count. -/
theorem SendLog.streamed {sndNxt : UInt32} {sndBuf sndQueue longer : List Ikcpseg}
    {accepted : List (List UInt8)} {added : List UInt8}
    (outgoing : SendLog conv stream log arrived sndNxt sndBuf sndQueue accepted)
    (streaming : stream ≠ 0)
    (each : forall seg, seg ∈ longer -> Modest seg.piece ∧ seg.piece.left = 0)
    (bytes : segmentBytes longer = segmentBytes sndQueue ++ added) :
    SendLog conv stream log arrived sndNxt sndBuf longer (accepted ++ [added]) := by
  have member : forall piece, piece ∈ log ++ pieces longer -> Modest piece ∧ piece.left = 0 := by
    intro piece there
    rcases List.mem_append.mp there with old | new
    · exact ⟨outgoing.modest piece (List.mem_append_left _ old),
        outgoing.single streaming piece (List.mem_append_left _ old)⟩
    · rcases List.mem_map.mp new with ⟨seg, inside, rfl⟩
      exact each seg inside
  have whole : Messages Piece.left Piece.data ((log ++ pieces longer).map Piece.data)
      (log ++ pieces longer) :=
    Fragmenting.messages_of_single fun piece there => (member piece there).2
  refine { outgoing with
    modest := fun piece there => (member piece there).1
    single := fun _ piece there => (member piece there).2
    messages := ⟨_, whole, ?_, fun zero => absurd zero streaming⟩ }
  rcases outgoing.messages with ⟨units, before, same, _⟩
  calc ((log ++ pieces longer).map Piece.data).flatten
      = log.flatMap Piece.data ++ segmentBytes longer := by
        rw [whole.flatten, List.flatMap_append, flatMap_pieces]
    _ = (log ++ pieces sndQueue).flatMap Piece.data ++ added := by
        rw [bytes, List.flatMap_append, flatMap_pieces, List.append_assoc]
    _ = (accepted ++ [added]).flatten := by
        rw [← before.flatten, same, List.flatten_append, List.flatten_singleton]

/-- Otherwise the fragments of one buffer join the queue. -/
theorem SendLog.fragmented {kcp : Ikcpcb} {later : Nat} {buffer : List UInt8}
    {sndNxt : UInt32} {sndBuf sndQueue : List Ikcpseg} {accepted : List (List UInt8)}
    (outgoing : SendLog conv 0 log arrived sndNxt sndBuf sndQueue accepted)
    (whole : kcp.stream = 0) (few : later < 128) (size : kcp.mss.toNat < 2147483648)
    (all : segmentBytes (fragments kcp (later + 1) buffer) = buffer) :
    SendLog conv 0 log arrived sndNxt sndBuf (sndQueue ++ fragments kcp (later + 1) buffer)
      (accepted ++ [buffer]) := by
  have split : log ++ pieces (sndQueue ++ fragments kcp (later + 1) buffer) =
      log ++ pieces sndQueue ++ pieces (fragments kcp (later + 1) buffer) := by
    rw [pieces, List.map_append, List.append_assoc]
    rfl
  refine { outgoing with
    modest := ?_
    single := fun streaming => absurd rfl streaming
    messages := ?_ }
  · intro piece member
    rw [split] at member
    rcases List.mem_append.mp member with old | new
    · exact outgoing.modest piece old
    · rcases List.mem_map.mp new with ⟨seg, inside, rfl⟩
      exact fragments_modest (by omega) size inside
  · rcases outgoing.messages with ⟨units, before, same, modal⟩
    have message : Messages Piece.left Piece.data _ _ :=
      (fragments_countdown whole (Nat.lt_trans few (by decide)) buffer).messages
    rw [flatMap_pieces, all] at message
    refine ⟨units ++ [buffer], ?_, ?_, ?_⟩
    · rw [split]
      exact before.append message
    · rw [List.flatten_append, List.flatten_append, same]
    · intro zero
      rw [modal zero]

/-- In streaming mode every segment of the longer queue stands for itself. -/
theorem Taking.single {kcp filled : Ikcpcb} {buffer bytes : List UInt8} {segments : List Ikcpseg}
    (taking : Taking kcp buffer bytes filled segments) (streaming : kcp.stream ≠ 0)
    (size : kcp.mss.toNat < 2147483648)
    (queue : forall seg, seg ∈ kcp.sndQueue -> Modest seg.piece ∧ seg.piece.left = 0)
    {seg : Ikcpseg} (member : seg ∈ (filled.queued segments).sndQueue) :
    Modest seg.piece ∧ seg.piece.left = 0 := by
  rcases List.mem_append.mp member with extended | new
  · rcases taking.extended.mem extended with old | ⟨alone, fits⟩
    · exact queue seg old
    · have none_ : seg.frg.toNat = 0 := congrArg UInt32.toNat alone
      have few : seg.frg.toNat < 128 := by omega
      exact ⟨⟨few, Nat.lt_of_le_of_lt fits size⟩, none_⟩
  · have cut := taking.cut new
    exact ⟨fragments_modest (Nat.le_of_lt taking.few) size cut, fragments_single streaming cut⟩

/-- Otherwise nothing is filled up, and the new segments are the whole buffer. -/
theorem Taking.fragmented {kcp filled : Ikcpcb} {buffer bytes : List UInt8}
    {segments : List Ikcpseg} (taking : Taking kcp buffer bytes filled segments)
    (whole : kcp.stream = 0) :
    bytes = [] ∧ filled = kcp ∧ Exists fun later => later < 128 ∧
      segments = Kcp.fragments kcp (later + 1) buffer := by
  rcases taking.whole whole with ⟨some_, all⟩
  have positive := List.length_pos_iff.mpr some_
  have few := taking.few
  have count : segments.length - 1 + 1 = segments.length := by omega
  have same : bytes = [] ∧ filled = kcp := by
    cases taking.extended with
    | same => exact ⟨rfl, rfl⟩
    | filled streaming _ _ => exact absurd whole streaming
  refine ⟨same.1, same.2, segments.length - 1, by omega, ?_⟩
  rcases taking.fragments with none_ | cut
  · exact absurd none_ some_
  · rw [count, ← all]
    exact cut

/-- A call to send. -/
theorem send_coherent {kcp : Ikcpcb} {buffer : List UInt8} {accepted : List (List UInt8)}
    (sane : Sane kcp) (mode : kcp.stream = stream)
    (outgoing : Outgoing conv stream log arrived kcp accepted) :
    Outgoing conv stream log arrived (ikcpSend kcp buffer).1
      (accepted ++ (IkcpCall.send buffer).accepts kcp) := by
  have size := sane.tuned.mss_pos
  have unit := sane.tuned.unit
  rcases ikcpSend_spec kcp buffer (by omega) with refused | ⟨bytes, filled, segments, taking, equal⟩
  · have nothing : (IkcpCall.send buffer).accepts kcp = [] := by
      rw [IkcpCall.accepts, refused]
      rfl
    rw [nothing, refused, List.append_nil]
    exact outgoing
  · have taken : (IkcpCall.send buffer).accepts kcp = [bytes ++ segmentBytes segments] := by
      rw [IkcpCall.accepts, equal, if_pos (Int.natCast_nonneg _), Int.toNat_natCast,
        ← List.prefix_iff_eq_take.mp taking.front]
    rw [taken, equal]
    by_cases whole : stream = 0
    · subst whole
      have all := (taking.whole mode).2
      rcases taking.fragmented mode with ⟨rfl, rfl, later, few, rfl⟩
      rw [List.nil_append, all]
      exact outgoing.fragmented mode few (by omega) all
    · have streaming : kcp.stream ≠ 0 := by
        rw [mode]
        exact whole
      have queue : forall seg, seg ∈ kcp.sndQueue -> Modest seg.piece ∧ seg.piece.left = 0 := by
        intro seg member
        have inside : seg.piece ∈ log ++ pieces kcp.sndQueue :=
          List.mem_append_right _ (List.mem_map_of_mem member)
        exact ⟨outgoing.modest _ inside, outgoing.single whole _ inside⟩
      have each := fun seg => @Taking.single _ _ _ _ _ taking streaming (by omega) queue seg
      have added : segmentBytes (filled.queued segments).sndQueue =
          segmentBytes kcp.sndQueue ++ (bytes ++ segmentBytes segments) := by
        rw [Ikcpcb.queued, segmentBytes_append, taking.extended.bytes, List.append_assoc]
      have longer := outgoing.streamed whole each added
      cases taking.extended <;> exact longer

/-! ## Flushing -/

/-- Numbered segments carry the new pieces of the log. -/
theorem numberSegs_carrying {stamp seg : Ikcpseg} {sn : UInt32} {front : List Ikcpseg}
    (conversation : stamp.conv = conv) (push : stamp.cmd = ikcpCmdPush)
    (next : sn.toNat = log.length) (small : log.length + front.length < 4294967296)
    (member : seg ∈ numberSegs stamp sn front) : Carrying conv (log ++ pieces front) seg := by
  induction front generalizing log sn with
  | nil => cases member
  | cons first others inductionHypothesis =>
      rw [List.length_cons] at small
      rcases List.mem_cons.mp member with rfl | deep
      · refine ⟨conversation, push, ?_⟩
        have number : sn.toNat = log.length + 0 := next
        have genuine : Genuine (log ++ pieces (first :: others)) (log.length + 0) first.piece :=
          Reassembly.genuine_append_right log rfl
        rw [← number] at genuine
        exact genuine
      · have longer : (log ++ [first.piece]).length = log.length + 1 := List.length_append
        have step : (sn + 1).toNat = sn.toNat + 1 := by
          rw [UInt32.toNat_add, UInt32.toNat_one]
          omega
        have carrying := @inductionHypothesis (log ++ [first.piece]) (sn + 1)
          (by rw [step, longer, next]) (by rw [longer]; omega) deep
        rw [List.append_assoc] at carrying
        exact carrying

/-- A flush keeps both directions in order, with some new pieces, and whatever
it hands over is right. -/
structure Sent (conv : UInt32) (stream : Int32) (log inLog : List Piece) (arrived : Nat -> Prop)
    (kcp after : Ikcpcb) (accepted received : List (List UInt8)) (output : List (List UInt8))
    (more : List Piece) : Prop where
  outgoing : Outgoing conv stream (log ++ more) arrived after accepted
  incoming : Incoming inLog after received
  grows : Grows kcp after
  output : forall datagram, datagram ∈ output ->
    datagram ≠ [] ∧ Holds (Passing conv (log ++ more) after) datagram

/-- Numbering the front of the queue makes the log longer by it. -/
theorem SendLog.numbered {kcp : Ikcpcb} {wnd : UInt32} {front back sndBuf : List Ikcpseg}
    {accepted : List (List UInt8)} (outgoing : Outgoing conv stream log arrived kcp accepted)
    (conversation : kcp.conv = conv) (split : kcp.sndQueue = front ++ back)
    (small : log.length + front.length < 2147483648)
    (same : sndBuf.map Ikcpseg.lasting = (kcp.numbered wnd front back).sndBuf.map Ikcpseg.lasting) :
    SendLog conv stream (log ++ pieces front) arrived (kcp.numbered wnd front back).sndNxt sndBuf
      back accepted := by
  have length : (log ++ pieces front).length = log.length + front.length := by
    rw [List.length_append, pieces, List.length_map]
  have whole : log ++ pieces front ++ pieces back = log ++ pieces kcp.sndQueue := by
    rw [split, pieces, pieces, pieces, List.map_append, List.append_assoc]
  have next := outgoing.next
  have all : numbers (kcp.numbered wnd front back).sndBuf =
      numbers kcp.sndBuf ++ Serial.consecutive kcp.sndNxt front.length := by
    rw [Ikcpcb.numbered, numbers, List.map_append, ← numbers_numberSegs (numberStamp kcp wnd)]
    rfl
  refine SendLog.relabel ?_ same
  refine ⟨?_, ?_, ?_, ?_, ?_, ?_, ?_⟩
  · rw [length]
    exact small
  · rw [length, Ikcpcb.numbered, UInt32.toNat_add, UInt32.toNat_ofNat']
    omega
  · intro seg member
    rcases List.mem_append.mp member with old | new
    · have carrying := outgoing.buffer seg old
      exact { carrying with genuine := carrying.genuine.append _ }
    · exact numberSegs_carrying conversation rfl next (by omega) new
  · rw [whole]
    exact outgoing.modest
  · rw [whole]
    exact outgoing.single
  · rw [whole]
    exact outgoing.messages
  · intro number inside
    rw [length] at inside
    rw [all, List.map_append]
    by_cases old : number < log.length
    · exact (outgoing.held number old).imp_left (List.mem_append_left _)
    · left
      apply List.mem_append_right
      rw [Serial.map_toNat_consecutive (by omega), List.mem_range'_1]
      omega

/-- What a flush writes is right. -/
theorem Written.passing {kcp after : Ikcpcb} {seg : Ikcpseg} {accepted received : List (List UInt8)}
    (written : Written kcp after.sndBuf seg) (conversation : kcp.conv = conv)
    (outgoing : Outgoing conv stream log arrived after accepted)
    (incoming : Incoming inLog kcp received) (grows : Grows kcp after) :
    Passing conv log after seg := by
  have low {word : UInt32} (same : seg.una = word) (le : word.toNat ≤ after.rcvNxt.toNat) :
      seg.una.toNat ≤ after.rcvNxt.toNat := by
    rw [same]
    exact le
  cases written with
  | ack sameConv una bare command number =>
      refine ⟨⟨sameConv.trans conversation, ?_, ?_⟩, ?_, low una grows.expected, ?_, ?_⟩
      · rw [command]
        exact .inr (.inl rfl)
      · rw [bare]
        exact Nat.zero_lt_succ _
      · rw [command]
        decide
      · exact fun _ => grows.arrived _ (incoming.acks _ number)
      · intro push
        rw [command] at push
        exact absurd push (by decide)
  | window sameConv una bare command =>
      refine ⟨⟨sameConv.trans conversation, ?_, ?_⟩, ?_, low una grows.expected, ?_, ?_⟩
      · rcases command with ask | tell
        · rw [ask]
          exact .inr (.inr (.inl rfl))
        · rw [tell]
          exact .inr (.inr (.inr rfl))
      · rw [bare]
        exact Nat.zero_lt_succ _
      · rcases command with ask | tell
        · rw [ask]
          decide
        · rw [tell]
          decide
      · intro acknowledge
        rcases command with ask | tell
        · rw [ask] at acknowledge
          exact absurd acknowledge (by decide)
        · rw [tell] at acknowledge
          exact absurd acknowledge (by decide)
      · intro push
        rcases command with ask | tell
        · rw [ask] at push
          exact absurd push (by decide)
        · rw [tell] at push
          exact absurd push (by decide)
  | data una member =>
      rcases List.mem_map.mp member with ⟨origin, inside, same⟩
      have carrying := (outgoing.buffer origin inside).of_lasting same
      have modest : Modest seg.piece := by
        apply outgoing.modest
        exact List.mem_append_left _ (List.mem_of_getElem? carrying.genuine)
      refine ⟨⟨carrying.conversation, ?_, modest.data⟩, ?_, low una grows.expected, ?_, ?_⟩
      · rw [carrying.push]
        exact .inl rfl
      · rw [carrying.push]
        decide
      · intro acknowledge
        rw [carrying.push] at acknowledge
        exact absurd acknowledge (by decide)
      · exact fun _ => ⟨Nat.lt_trans modest.frg (by decide), carrying.genuine⟩

/-- A flush. -/
theorem flush_coherent {kcp : Ikcpcb} {accepted received : List (List UInt8)} (sane : Sane kcp)
    (conversation : kcp.conv = conv) (early : kcp.sndNxt.toNat < 2147418112)
    (outgoing : Outgoing conv stream log arrived kcp accepted)
    (incoming : Incoming inLog kcp received) :
    Exists fun more => Sent conv stream log inLog arrived kcp (ikcpFlush kcp).1 accepted received
      (ikcpFlush kcp).2.output more := by
  have after : Exists fun more =>
      Outgoing conv stream (log ++ more) arrived (ikcpFlush kcp).1 accepted ∧
        Incoming inLog (ikcpFlush kcp).1 received ∧ Grows kcp (ikcpFlush kcp).1 := by
    by_cases idle : kcp.updated = 0
    · rw [ikcpFlush, if_pos idle]
      refine ⟨[], ?_, incoming, .refl _ _⟩
      rw [List.append_nil]
      exact outgoing
    · rcases ikcpFlush_spec idle with ⟨front, back, flushed⟩
      rcases flushed.equal with ⟨_, _, _, _, _, _, _, _, equal⟩
      have flight := flushed.roomy.flight
        (Nat.le_trans (flushWindow_le kcp) sane.sending.peer) sane.sending.flight
      have next := outgoing.next
      have longer := outgoing.numbered conversation flushed.split (by omega) flushed.lasting
      refine ⟨pieces front, ?_, ?_, ?_⟩
      · rw [equal]
        exact longer
      · rw [equal]
        exact { incoming with acks := fun _ member => absurd member List.not_mem_nil }
      · rw [equal]
        exact .refl _ _
  rcases after with ⟨more, sending, receiving, grows⟩
  refine ⟨more, sending, receiving, grows, ?_⟩
  have queued : forall seg, seg ∈ kcp.sndQueue ->
      24 + seg.data.length ≤ kcp.mtu.toNat + 2147483672 := by
    intro seg member
    have modest := (outgoing.modest seg.piece
      (List.mem_append_right _ (List.mem_map_of_mem member))).data
    have data : seg.piece.data = seg.data := rfl
    rw [data] at modest
    omega
  have buffered : forall seg, seg ∈ kcp.sndBuf ->
      24 + seg.data.length ≤ kcp.mtu.toNat + 2147483672 := by
    intro seg member
    have genuine := (outgoing.buffer seg member).genuine
    have modest := (outgoing.modest seg.piece
      (List.mem_append_left _ (List.mem_of_getElem? genuine))).data
    have data : seg.piece.data = seg.data := rfl
    rw [data] at modest
    omega
  have carries := ikcpFlush_carries (by omega) (by omega) queued buffered
  intro datagram member
  rcases carries.output datagram member with ⟨some_, _, segs, each, equal⟩
  exact ⟨some_, segs,
    fun seg there => (each seg there).passing conversation sending incoming grows, equal⟩

end Kcp
end ServerTech
