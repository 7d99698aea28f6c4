import ServerTech.Foundation.Transition
import ServerTech.Kcp.Flush

namespace ServerTech
namespace Kcp

/-!
# The windows of a KCP endpoint

Whatever the application calls, in whatever order and with whatever arguments,
and whatever datagrams arrive, a control block keeps its windows in order.  The
send buffer goes up from the first number that is not acknowledged to the next
one, and never spans more than a 16-bit window.  The receive buffer goes up from
the next expected number, and the receive queue ends right before it with no
number left out.  The counters are the lengths of the queues, and the timeout
stays within its bounds.  The sequence numbers may go round as often as they
like.
-/

/-! ## Calls -/

/-- The calls of the interface. -/
inductive IkcpCall
  | send (buffer : List UInt8)
  | recv (len : Int32)
  | input (data : List UInt8)
  | update (current : UInt32)
  | flush
  | setmtu (mtu : Int32)
  | interval (period : Int32)
  | nodelay (fast period resend nc : Int32)
  | wndsize (sndwnd rcvwnd : Int32)
  deriving DecidableEq, Repr

/-- The control block after a call. -/
def IkcpCall.perform (kcp : Ikcpcb) : IkcpCall -> Ikcpcb
  | .send buffer => (ikcpSend kcp buffer).1
  | .recv len => (ikcpRecv kcp len).1
  | .input data => (ikcpInput kcp data).1
  | .update current => (ikcpUpdate kcp current).1
  | .flush => (ikcpFlush kcp).1
  | .setmtu mtu => (ikcpSetmtu kcp mtu).1
  | .interval period => ikcpIntervalSet kcp period
  | .nodelay fast period resend nc => ikcpNodelay kcp fast period resend nc
  | .wndsize sndwnd rcvwnd => ikcpWndsize kcp sndwnd rcvwnd

/-- Whether a call writes behind the output buffer, or adds up a length that is
no `int`. -/
def IkcpCall.fault (kcp : Ikcpcb) : IkcpCall -> Bool
  | .update current => (ikcpUpdate kcp current).2.fault
  | .flush => (ikcpFlush kcp).2.fault
  | _ => false

/-- The step relation of a control block.  Behind a fault there is no step. -/
def calling (before : Ikcpcb) (call : IkcpCall) (after : Ikcpcb) : Prop :=
  call.fault before = false ∧ call.perform before = after

/-! ## The invariants -/

/-- The numbers of segments. -/
def numbers (segments : List Ikcpseg) : List UInt32 :=
  segments.map Ikcpseg.sn

/-- The words and queues of a sending side in order. -/
structure SendOrder (sndUna sndNxt rmtWnd nsndBuf nsndQue : UInt32)
    (sndBuf sndQueue : List Ikcpseg) : Prop where
  ascending : Serial.Ascending sndUna (Serial.offset sndUna sndNxt) (numbers sndBuf)
  oldest : (numbers sndBuf).headD sndNxt = sndUna
  flight : Serial.offset sndUna sndNxt ≤ 65535
  peer : rmtWnd.toNat ≤ 65535
  buffered : nsndBuf = UInt32.ofNat sndBuf.length
  queued : nsndQue = UInt32.ofNat sndQueue.length

/-- The sending side is in order. -/
abbrev Sending (kcp : Ikcpcb) : Prop :=
  SendOrder kcp.sndUna kcp.sndNxt kcp.rmtWnd kcp.nsndBuf kcp.nsndQue kcp.sndBuf kcp.sndQueue

/-- The words and queues of a receiving side in order. -/
structure ReceiveOrder (rcvNxt rcvWnd nrcvBuf nrcvQue : UInt32)
    (rcvBuf rcvQueue : List Ikcpseg) : Prop where
  ascending : Serial.Ascending rcvNxt 2147483648 (numbers rcvBuf)
  consecutive : Exists fun start =>
    numbers rcvQueue = Serial.consecutive start rcvQueue.length ∧
      rcvNxt = start + UInt32.ofNat rcvQueue.length
  window : 128 ≤ rcvWnd.toNat ∧ rcvWnd.toNat < 2147483648
  short : rcvQueue.length < 2147483648
  buffered : nrcvBuf = UInt32.ofNat rcvBuf.length
  queued : nrcvQue = UInt32.ofNat rcvQueue.length

/-- The receiving side is in order. -/
abbrev Receiving (kcp : Ikcpcb) : Prop :=
  ReceiveOrder kcp.rcvNxt kcp.rcvWnd kcp.nrcvBuf kcp.nrcvQue kcp.rcvBuf kcp.rcvQueue

/-- Settings and a measured timeout within their bounds. -/
structure Bounded (mtu mss interval : UInt32) (rxMinrto rxRto : Int32) : Prop where
  unit : 50 ≤ mtu.toNat ∧ mtu.toNat < 2147483648
  size : mss = mtu - 24
  interval : 10 ≤ interval.toNat ∧ interval.toNat ≤ 5000
  least : rxMinrto = 100 ∨ rxMinrto = 30
  timeout : 30 ≤ rxRto.toInt ∧ rxRto.toInt ≤ 60000

/-- The settings and the measured timeout are within their bounds. -/
abbrev Tuned (kcp : Ikcpcb) : Prop :=
  Bounded kcp.mtu kcp.mss kcp.interval kcp.rxMinrto kcp.rxRto

/-- A control block that is in order. -/
structure Sane (kcp : Ikcpcb) : Prop where
  sending : Sending kcp
  receiving : Receiving kcp
  tuned : Tuned kcp

theorem sane_create (conv : UInt32) : Sane (ikcpCreate conv) where
  sending := {
    ascending := .nil _ _
    oldest := rfl
    flight := by
      rw [show (ikcpCreate conv).sndUna = 0 from rfl, show (ikcpCreate conv).sndNxt = 0 from rfl,
        Serial.offset_self]
      exact Nat.zero_le _
    peer := (by decide : ikcpWndRcv.toNat ≤ 65535)
    buffered := rfl
    queued := rfl }
  receiving := {
    ascending := .nil _ _
    consecutive := ⟨0, rfl, rfl⟩
    window := (by decide : 128 ≤ ikcpWndRcv.toNat ∧ ikcpWndRcv.toNat < 2147483648)
    short := (by decide : 0 < 2147483648)
    buffered := rfl
    queued := rfl }
  tuned := {
    unit := (by decide : 50 ≤ ikcpMtuDef.toNat ∧ ikcpMtuDef.toNat < 2147483648)
    size := rfl
    interval := (by decide : 10 ≤ ikcpInterval.toNat ∧ ikcpInterval.toNat ≤ 5000)
    least := .inl rfl
    timeout := (by decide : 30 ≤ ikcpRtoDef.toInt32.toInt ∧ ikcpRtoDef.toInt32.toInt ≤ 60000) }

/-! ## The sending side -/

/-- Fewer segments in the send buffer. -/
theorem SendOrder.keeping {kcp : Ikcpcb} {kept : List Ikcpseg} (sending : Sending kcp)
    (part : kept.Sublist kcp.sndBuf) : Sending (kcp.keeping kept) := by
  have fewer := sending.ascending.sublist (part.map Ikcpseg.sn)
  have count : kcp.nsndBuf - UInt32.ofNat (kcp.sndBuf.length - kept.length) =
      UInt32.ofNat kept.length := by
    have le := part.length_le
    rw [sending.buffered, ← UInt32.ofNat_sub (Nat.sub_le _ _)]
    congr 1
    omega
  cases kept with
  | nil =>
      refine ⟨.nil _ _, rfl, ?_, sending.peer, count, sending.queued⟩
      have same : Serial.offset kcp.sndNxt kcp.sndNxt ≤ 65535 := by
        rw [Serial.offset_self]
        exact Nat.zero_le _
      exact same
  | cons seg others =>
      have first := fewer.below seg.sn List.mem_cons_self
      have shorter : Serial.offset seg.sn kcp.sndNxt =
          Serial.offset kcp.sndUna kcp.sndNxt - Serial.offset kcp.sndUna seg.sn :=
        Serial.offset_advance (Nat.le_of_lt first)
      have least : forall number, number ∈ seg.sn :: others.map Ikcpseg.sn ->
          Serial.offset kcp.sndUna seg.sn ≤ Serial.offset kcp.sndUna number := by
        intro number member
        rcases List.mem_cons.mp member with rfl | later
        · exact Nat.le_refl _
        · exact Nat.le_of_lt ((List.pairwise_cons.mp fewer.ordered).1 number later)
      have advanced := fewer.advance least
      rw [← shorter] at advanced
      refine ⟨advanced, rfl, ?_, sending.peer, count, sending.queued⟩
      have flight := sending.flight
      have reach : Serial.offset seg.sn kcp.sndNxt ≤ 65535 := by omega
      exact reach

theorem numbers_numberSegs (stamp : Ikcpseg) (sn : UInt32) (segments : List Ikcpseg) :
    numbers (numberSegs stamp sn segments) = Serial.consecutive sn segments.length := by
  induction segments generalizing sn with
  | nil => rfl
  | cons seg others inductionHypothesis =>
      exact congrArg (sn :: ·) (inductionHypothesis (sn + 1))

theorem length_numberSegs (stamp : Ikcpseg) (sn : UInt32) (segments : List Ikcpseg) :
    (numberSegs stamp sn segments).length = segments.length := by
  have count := congrArg List.length (numbers_numberSegs stamp sn segments)
  rw [numbers, List.length_map, Serial.length_consecutive] at count
  exact count

/-- Numbering within a window keeps the flight within it. -/
theorem Roomy.flight {next una cwnd : UInt32} {count : Nat} (roomy : Roomy next (una + cwnd) count)
    (window : cwnd.toNat ≤ 65535) (near : Serial.offset una next ≤ 65535) :
    Serial.offset una next + count ≤ 65535 := by
  induction roomy with
  | zero => exact near
  | @succ count earlier open_ inductionHypothesis =>
      have reached : Serial.offset una (next + UInt32.ofNat count) =
          Serial.offset una next + count := Serial.offset_add (by omega)
      have limit : Serial.offset una (una + cwnd) = cwnd.toNat := by
        have small := cwnd.toNat_lt
        have added := @Serial.offset_add una una cwnd.toNat (by rw [Serial.offset_self]; omega)
        rw [UInt32.ofNat_toNat, Serial.offset_self, Nat.zero_add] at added
        exact added
      have ahead : Serial.offset una (next + UInt32.ofNat count) < 2147483648 := by omega
      have behind : Serial.offset una (una + cwnd) < 2147483648 := by omega
      rw [itimediff, Serial.difference_of_offset ahead behind] at open_
      omega

theorem flushWindow_le (kcp : Ikcpcb) : (flushWindow kcp).toNat ≤ kcp.rmtWnd.toNat := by
  have least (a b : UInt32) : (imin a b).toNat ≤ b.toNat := by
    unfold imin
    split
    · next less => exact UInt32.le_iff_toNat_le.mp less
    · exact Nat.le_refl _
  unfold flushWindow
  split
  · exact Nat.le_trans (least _ _) (least _ _)
  · exact least _ _

/-- More segments in the send buffer. -/
theorem SendOrder.numbered {kcp : Ikcpcb} {wnd : UInt32} {front back : List Ikcpseg}
    (sending : Sending kcp) (split : kcp.sndQueue = front ++ back)
    (roomy : Roomy kcp.sndNxt (kcp.sndUna + flushWindow kcp) front.length) :
    Sending (kcp.numbered wnd front back) := by
  have flight := roomy.flight (Nat.le_trans (flushWindow_le kcp) sending.peer) sending.flight
  have reached : Serial.offset kcp.sndUna (kcp.sndNxt + UInt32.ofNat front.length) =
      Serial.offset kcp.sndUna kcp.sndNxt + front.length := Serial.offset_add (by omega)
  have all : numbers (kcp.numbered wnd front back).sndBuf =
      numbers kcp.sndBuf ++ Serial.consecutive kcp.sndNxt front.length := by
    rw [Ikcpcb.numbered, numbers, List.map_append, ← numbers_numberSegs (numberStamp kcp wnd)]
    rfl
  constructor
  · rw [all]
    have room : Serial.offset kcp.sndUna kcp.sndNxt + front.length < 4294967296 := by omega
    have longer := sending.ascending.append_consecutive rfl room
    rw [← reached] at longer
    exact longer
  · rw [all]
    have oldest := sending.oldest
    cases buffered : numbers kcp.sndBuf with
    | cons first others =>
        rw [buffered] at oldest
        exact oldest
    | nil =>
        rw [buffered] at oldest
        have none_ : UInt32.ofNat 0 = 0 := rfl
        cases front with
        | nil =>
            have same : kcp.sndNxt + UInt32.ofNat 0 = kcp.sndUna := by
              rw [none_, UInt32.add_zero]
              exact oldest
            exact same
        | cons seg others => exact oldest
  · exact Nat.le_trans (Nat.le_of_eq reached) flight
  · exact sending.peer
  · have count : kcp.nsndBuf + UInt32.ofNat front.length =
        UInt32.ofNat (kcp.sndBuf ++ numberSegs (numberStamp kcp wnd) kcp.sndNxt front).length := by
      rw [sending.buffered, List.length_append, length_numberSegs, UInt32.ofNat_add]
    exact count
  · have count : kcp.nsndQue - UInt32.ofNat front.length = UInt32.ofNat back.length := by
      rw [sending.queued, split, List.length_append, UInt32.ofNat_add, UInt32.add_comm,
        UInt32.add_sub_cancel]
    exact count

theorem numbers_of_lasting {first second : List Ikcpseg}
    (same : first.map Ikcpseg.lasting = second.map Ikcpseg.lasting) :
    numbers first = numbers second := by
  have equal := congrArg (List.map Ikcpseg.sn) same
  rw [List.map_map, List.map_map] at equal
  exact equal

theorem length_of_lasting {first second : List Ikcpseg}
    (same : first.map Ikcpseg.lasting = second.map Ikcpseg.lasting) :
    first.length = second.length := by
  have equal := congrArg List.length same
  rw [List.length_map, List.length_map] at equal
  exact equal

/-- Counting and scheduling change nothing of the order. -/
theorem SendOrder.relabel {sndUna sndNxt rmtWnd nsndBuf nsndQue : UInt32}
    {sndBuf relabelled sndQueue : List Ikcpseg}
    (sending : SendOrder sndUna sndNxt rmtWnd nsndBuf nsndQue sndBuf sndQueue)
    (same : relabelled.map Ikcpseg.lasting = sndBuf.map Ikcpseg.lasting) :
    SendOrder sndUna sndNxt rmtWnd nsndBuf nsndQue relabelled sndQueue where
  ascending := by
    rw [numbers_of_lasting same]
    exact sending.ascending
  oldest := by
    rw [numbers_of_lasting same]
    exact sending.oldest
  flight := sending.flight
  peer := sending.peer
  buffered := by
    rw [length_of_lasting same]
    exact sending.buffered
  queued := sending.queued

/-! ## The receiving side -/

/-- Available segments move from the buffer to the queue. -/
theorem ReceiveOrder.moved {kcp : Ikcpcb} {front back : List Ikcpseg} (receiving : Receiving kcp)
    (movable : Movable kcp front back) : Receiving (kcp.moved front back) := by
  have split : numbers kcp.rcvBuf = Serial.consecutive kcp.rcvNxt front.length ++ numbers back := by
    rw [movable.split, numbers, List.map_append, movable.numbers]
    rfl
  have ascending := receiving.ascending
  rw [split] at ascending
  rcases receiving.consecutive with ⟨start, queue, next⟩
  have short := receiving.short
  have exact_ : kcp.nrcvQue.toNat = kcp.rcvQueue.length := by
    rw [receiving.queued, UInt32.toNat_ofNat']
    omega
  refine ⟨ascending.behind_consecutive, ⟨start, ?_, ?_⟩, receiving.window, ?_, ?_, ?_⟩
  · have whole : numbers (kcp.rcvQueue ++ front) =
        Serial.consecutive start (kcp.rcvQueue ++ front).length := by
      rw [List.length_append, Serial.consecutive_append, ← next, ← queue, ← movable.numbers]
      exact List.map_append
    exact whole
  · have after : kcp.rcvNxt + UInt32.ofNat front.length =
        start + UInt32.ofNat (kcp.rcvQueue ++ front).length := by
      rw [next, UInt32.add_assoc, List.length_append, UInt32.ofNat_add]
    exact after
  · have bound : (kcp.rcvQueue ++ front).length < 2147483648 := by
      rw [List.length_append]
      rcases movable.room with rfl | fits
      · exact short
      · have window := receiving.window
        omega
    exact bound
  · have count : kcp.nrcvBuf - UInt32.ofNat front.length = UInt32.ofNat back.length := by
      rw [receiving.buffered, movable.split, List.length_append, UInt32.ofNat_add, UInt32.add_comm,
        UInt32.add_sub_cancel]
    exact count
  · have count : kcp.nrcvQue + UInt32.ofNat front.length =
        UInt32.ofNat (kcp.rcvQueue ++ front).length := by
      rw [receiving.queued, List.length_append, UInt32.ofNat_add]
    exact count

/-- A new segment within the window. -/
theorem ReceiveOrder.inserted {kcp : Ikcpcb} {seg : Ikcpseg} {rcvBuf : List Ikcpseg}
    (receiving : Receiving kcp) (expected : 0 ≤ itimediff seg.sn kcp.rcvNxt)
    (placed : Serial.insert Ikcpseg.sn seg kcp.rcvBuf = some rcvBuf) :
    Receiving (kcp.inserted rcvBuf) := by
  refine ⟨receiving.ascending.insert (Nat.le_refl _) (Serial.difference_nonneg_iff.mp expected)
    placed, receiving.consecutive, receiving.window, receiving.short, ?_, receiving.queued⟩
  rcases Serial.insert_some placed with ⟨front, back, split, rfl, _⟩
  have count : kcp.nrcvBuf + 1 = UInt32.ofNat (front ++ seg :: back).length := by
    have one : UInt32.ofNat 1 = 1 := rfl
    rw [receiving.buffered, split, List.length_append, List.length_append, List.length_cons,
      ← Nat.add_assoc, UInt32.ofNat_add (front.length + back.length), one]
  exact count

/-- A message is taken from the front of the queue. -/
theorem ReceiveOrder.withoutMessage {kcp : Ikcpcb} (receiving : Receiving kcp) :
    Receiving kcp.withoutMessage := by
  have split := mergeFragment_append kcp.rcvQueue
  generalize message : (mergeFragment kcp.rcvQueue).1 = front at split
  generalize rest : (mergeFragment kcp.rcvQueue).2 = back at split
  have taken : kcp.withoutMessage =
      { kcp with rcvQueue := back, nrcvQue := kcp.nrcvQue - UInt32.ofNat front.length } := by
    rw [Ikcpcb.withoutMessage, message, rest]
  have count := congrArg List.length split
  rw [List.length_append] at count
  rcases receiving.consecutive with ⟨start, queue, next⟩
  rw [taken]
  refine ⟨receiving.ascending, ⟨start + UInt32.ofNat front.length, ?_, ?_⟩, receiving.window, ?_,
    receiving.buffered, ?_⟩
  · rw [← split, numbers, List.map_append, List.length_append, Serial.consecutive_append] at queue
    exact (List.append_inj queue (by rw [List.length_map, Serial.length_consecutive])).2
  · have after : kcp.rcvNxt = start + UInt32.ofNat front.length + UInt32.ofNat back.length := by
      rw [next, ← count, UInt32.add_assoc, ← UInt32.ofNat_add]
    exact after
  · have short := receiving.short
    have less : back.length < 2147483648 := by omega
    exact less
  · have fewer : kcp.nrcvQue - UInt32.ofNat front.length = UInt32.ofNat back.length := by
      rw [receiving.queued, ← count, UInt32.ofNat_add, UInt32.add_comm, UInt32.add_sub_cancel]
    exact fewer

/-! ## The timeout -/

theorem ibound_bounds {lower middle upper : UInt32} (order : lower.toNat ≤ upper.toNat) :
    lower.toNat ≤ (ibound lower middle upper).toNat ∧
      (ibound lower middle upper).toNat ≤ upper.toNat := by
  have most : lower.toNat ≤ (imax lower middle).toNat := by
    unfold imax
    split
    · exact Nat.le_refl _
    · next less =>
        have more := UInt32.lt_iff_toNat_lt.mp (UInt32.not_le.mp less)
        omega
  unfold ibound imin
  split
  · next less => exact ⟨most, UInt32.le_iff_toNat_le.mp less⟩
  · exact ⟨order, Nat.le_refl _⟩

/-- A measured timeout is at least the least one. -/
theorem Bounded.measured {kcp : Ikcpcb} (tuned : Tuned kcp) (measured : UInt32) :
    30 ≤ (ibound kcp.rxMinrto.toUInt32 measured ikcpRtoMax).toInt32.toInt ∧
      (ibound kcp.rxMinrto.toUInt32 measured ikcpRtoMax).toInt32.toInt ≤ 60000 := by
  have most : ikcpRtoMax.toNat = 60000 := rfl
  have least : 30 ≤ kcp.rxMinrto.toUInt32.toNat ∧ kcp.rxMinrto.toUInt32.toNat ≤ 100 := by
    rcases tuned.least with slow | fast
    · rw [slow]
      decide
    · rw [fast]
      decide
  have bounds := @ibound_bounds kcp.rxMinrto.toUInt32 measured ikcpRtoMax (by omega)
  rw [Serial.toInt_toInt32 (by omega)]
  omega

/-! ## One call -/

theorem Sane.inputStep {seg : Ikcpseg} {kcp after : Ikcpcb} (sane : Sane kcp)
    (wnd : seg.wnd.toNat ≤ 65535) (step : InputStep seg kcp after) : Sane after := by
  cases step with
  | measure rmtWnd probe srtt rttval rto window timeout =>
      refine ⟨{ sane.sending with peer := ?_ }, sane.receiving, { sane.tuned with timeout := ?_ }⟩
      · rcases window with same | heard
        · rw [same]
          exact sane.sending.peer
        · rw [heard]
          exact wnd
      · rcases timeout with same | ⟨measured, bounded⟩
        · rw [same]
          exact sane.tuned.timeout
        · rw [bounded]
          exact sane.tuned.measured measured
  | una split _ =>
      refine ⟨sane.sending.keeping ?_, sane.receiving, sane.tuned⟩
      rw [split]
      exact List.sublist_append_right _ _
  | ack _ split _ =>
      refine ⟨sane.sending.keeping ?_, sane.receiving, sane.tuned⟩
      rw [split]
      exact List.Sublist.append_left (List.sublist_cons_self _ _) _
  | late _ _ => exact ⟨sane.sending, sane.receiving, sane.tuned⟩
  | repeated _ _ movable =>
      have pushed : Receiving (ikcpAckPush kcp seg.sn seg.ts) := sane.receiving
      exact ⟨sane.sending, pushed.moved movable, sane.tuned⟩
  | data _ expected _ placed movable =>
      have pushed : Receiving (ikcpAckPush kcp seg.sn seg.ts) := sane.receiving
      exact ⟨sane.sending, (pushed.inserted expected placed).moved movable, sane.tuned⟩

theorem Sane.inputSteps {heard : Ikcpseg -> Prop} {kcp after : Ikcpcb} (sane : Sane kcp)
    (wnd : forall seg, heard seg -> seg.wnd.toNat ≤ 65535) (steps : InputSteps heard kcp after) :
    Sane after := by
  induction steps with
  | refl => exact sane
  | snoc _ known step inductionHypothesis => exact inductionHypothesis.inputStep (wnd _ known) step

theorem Sane.input {kcp : Ikcpcb} (sane : Sane kcp) (data : List UInt8) :
    Sane (ikcpInput kcp data).1 := by
  rcases ikcpInput_steps kcp data with ⟨middle, sndBuf, cwnd, incr, steps, same, equal⟩
  have reached := sane.inputSteps (fun seg member => scanSegs_wnd member) steps
  rw [equal]
  exact ⟨reached.sending.relabel same, reached.receiving, reached.tuned⟩

theorem Sane.flush {kcp : Ikcpcb} (sane : Sane kcp) : Sane (ikcpFlush kcp).1 := by
  by_cases idle : kcp.updated = 0
  · rw [ikcpFlush, if_pos idle]
    exact sane
  · rcases ikcpFlush_spec idle with ⟨front, back, flushed⟩
    rcases flushed.equal with ⟨_, _, _, _, _, _, _, _, equal⟩
    have numbered := @SendOrder.numbered kcp (ikcpWndUnused kcp) _ _ sane.sending flushed.split
      flushed.roomy
    have relabelled := numbered.relabel flushed.lasting
    rw [equal]
    exact ⟨relabelled, sane.receiving, sane.tuned⟩

theorem Sane.update {kcp : Ikcpcb} (sane : Sane kcp) (current : UInt32) :
    Sane (ikcpUpdate kcp current).1 := by
  rcases ikcpUpdate_cases kcp current with ⟨updated, tsFlush, _, flushed | waited⟩
  · have clocked : Sane { kcp with current := current, updated := updated, tsFlush := tsFlush } :=
      ⟨sane.sending, sane.receiving, sane.tuned⟩
    rw [flushed]
    exact clocked.flush
  · rw [waited]
    exact ⟨sane.sending, sane.receiving, sane.tuned⟩

theorem Sane.recv {kcp : Ikcpcb} (sane : Sane kcp) (len : Int32) : Sane (ikcpRecv kcp len).1 := by
  rcases ikcpRecv_cases kcp len with ⟨code, _, equal⟩ | ⟨probe, _, _, equal⟩
  · rw [equal]
    exact sane
  · rw [equal]
    have taken : Sane (if len < 0 then kcp else kcp.withoutMessage) := by
      split
      · exact sane
      · exact ⟨sane.sending, sane.receiving.withoutMessage, sane.tuned⟩
    rcases moveAvailable_spec (if len < 0 then kcp else kcp.withoutMessage) with
      ⟨front, back, movable, moved⟩
    rw [moved]
    exact ⟨taken.sending, taken.receiving.moved movable, taken.tuned⟩

/-- There is room for data in a segment. -/
theorem Bounded.mss_pos {mtu mss interval : UInt32} {rxMinrto rxRto : Int32}
    (tuned : Bounded mtu mss interval rxMinrto rxRto) : mss.toNat = mtu.toNat - 24 := by
  have unit := tuned.unit
  have overhead : (24 : UInt32).toNat = 24 := rfl
  rw [tuned.size, UInt32.toNat_sub, overhead]
  omega

theorem Sane.send {kcp : Ikcpcb} (sane : Sane kcp) (buffer : List UInt8) :
    Sane (ikcpSend kcp buffer).1 := by
  have room : 0 < kcp.mss.toNat := by
    have size := sane.tuned.mss_pos
    have unit := sane.tuned.unit
    omega
  rcases ikcpSend_spec kcp buffer room with refused | ⟨bytes, filled, segments, taking, equal⟩
  · rw [refused]
    exact sane
  · have filled_ : Sane filled := by
      cases taking.extended with
      | same => exact sane
      | filled _ split _ =>
          refine ⟨{ sane.sending with queued := ?_ }, sane.receiving, sane.tuned⟩
          rw [sane.sending.queued, split, List.length_append, List.length_append]
          rfl
    rw [equal]
    refine ⟨{ filled_.sending with queued := ?_ }, filled_.receiving, filled_.tuned⟩
    have count : filled.nsndQue + UInt32.ofNat segments.length =
        UInt32.ofNat (filled.sndQueue ++ segments).length := by
      rw [filled_.sending.queued, List.length_append, UInt32.ofNat_add]
    exact count

theorem clampInterval_bounds (period : Int32) :
    10 ≤ (clampInterval period).toNat ∧ (clampInterval period).toNat ≤ 5000 := by
  have high : (5000 : Int32).toInt = 5000 := rfl
  have low : (10 : Int32).toInt = 10 := rfl
  unfold clampInterval
  by_cases above : 5000 < period
  · rw [if_pos above]
    decide
  · by_cases below : period < 10
    · rw [if_neg above, if_pos below]
      decide
    · rw [Int32.lt_iff_toInt_lt, high] at above
      rw [Int32.lt_iff_toInt_lt, low] at below
      have value := Serial.toNat_toUInt32 (by omega : 0 ≤ period.toInt)
      rw [if_neg (by rw [Int32.lt_iff_toInt_lt, high]; exact above),
        if_neg (by rw [Int32.lt_iff_toInt_lt, low]; exact below)]
      omega

theorem Sane.setmtu {kcp : Ikcpcb} (sane : Sane kcp) (mtu : Int32) :
    Sane (ikcpSetmtu kcp mtu).1 := by
  have fifty : (50 : Int32).toInt = 50 := rfl
  unfold ikcpSetmtu
  by_cases small : mtu < 50 ∨ mtu < 24
  · rw [if_pos small]
    exact sane
  · rw [if_neg small]
    have enough : ¬ mtu < 50 := fun less => small (.inl less)
    rw [Int32.lt_iff_toInt_lt, fifty] at enough
    have value := Serial.toNat_toUInt32 (by omega : 0 ≤ mtu.toInt)
    refine ⟨sane.sending, sane.receiving, { sane.tuned with unit := ?_, size := rfl }⟩
    have unit : 50 ≤ mtu.toUInt32.toNat ∧ mtu.toUInt32.toNat < 2147483648 := by omega
    exact unit

theorem Sane.nodelay {kcp : Ikcpcb} (sane : Sane kcp) (fast period resend nc : Int32) :
    Sane (ikcpNodelay kcp fast period resend nc) := by
  have first : Sane (if 0 ≤ fast then { kcp with
      nodelay := fast.toUInt32
      rxMinrto := if fast = 0 then ikcpRtoMin.toInt32 else ikcpRtoNdl.toInt32 } else kcp) := by
    split
    · refine ⟨sane.sending, sane.receiving, { sane.tuned with least := ?_ }⟩
      by_cases slow : fast = 0
      · simp only [if_pos slow]
        exact .inl rfl
      · simp only [if_neg slow]
        exact .inr rfl
    · exact sane
  unfold ikcpNodelay
  generalize (if 0 ≤ fast then { kcp with
      nodelay := fast.toUInt32
      rxMinrto := if fast = 0 then ikcpRtoMin.toInt32 else ikcpRtoNdl.toInt32 } else kcp) = start
    at first ⊢
  have second : Sane (if 0 ≤ period then { start with interval := clampInterval period }
      else start) := by
    split
    · exact ⟨first.sending, first.receiving,
        { first.tuned with interval := clampInterval_bounds period }⟩
    · exact first
  simp only
  generalize (if 0 ≤ period then { start with interval := clampInterval period } else start) =
    middle at second ⊢
  by_cases resent : 0 ≤ resend <;> by_cases open_ : 0 ≤ nc <;>
    simp only [resent, open_, if_true, if_false] <;>
    exact ⟨second.sending, second.receiving, second.tuned⟩

theorem Sane.wndsize {kcp : Ikcpcb} (sane : Sane kcp) (sndwnd rcvwnd : Int32) :
    Sane (ikcpWndsize kcp sndwnd rcvwnd) := by
  have zero : (0 : Int32).toInt = 0 := rfl
  have first : Sane (if 0 < sndwnd then { kcp with sndWnd := sndwnd.toUInt32 } else kcp) := by
    split
    · exact ⟨sane.sending, sane.receiving, sane.tuned⟩
    · exact sane
  unfold ikcpWndsize
  generalize (if 0 < sndwnd then { kcp with sndWnd := sndwnd.toUInt32 } else kcp) = start at first ⊢
  by_cases set_ : 0 < rcvwnd
  · simp only [if_pos set_]
    rw [Int32.lt_iff_toInt_lt, zero] at set_
    have value := Serial.toNat_toUInt32 (Int.le_of_lt set_)
    have default_ : ikcpWndRcv.toNat = 128 := rfl
    have window : 128 ≤ (imax rcvwnd.toUInt32 ikcpWndRcv).toNat ∧
        (imax rcvwnd.toUInt32 ikcpWndRcv).toNat < 2147483648 := by
      unfold imax
      split
      · next less =>
          have more := UInt32.le_iff_toNat_le.mp less
          omega
      · omega
    exact ⟨first.sending, { first.receiving with window := window }, first.tuned⟩
  · simp only [if_neg set_]
    exact first

theorem Sane.perform {kcp : Ikcpcb} (sane : Sane kcp) (call : IkcpCall) :
    Sane (call.perform kcp) := by
  cases call with
  | send buffer => exact sane.send buffer
  | recv len => exact sane.recv len
  | input data => exact sane.input data
  | update current => exact sane.update current
  | flush => exact sane.flush
  | setmtu mtu => exact sane.setmtu mtu
  | interval period =>
      exact ⟨sane.sending, sane.receiving,
        { sane.tuned with interval := clampInterval_bounds period }⟩
  | nodelay fast period resend nc => exact sane.nodelay fast period resend nc
  | wndsize sndwnd rcvwnd => exact sane.wndsize sndwnd rcvwnd

/-- Whatever is called and whatever arrives, a control block stays in order as
long as there is no fault. -/
theorem sane_of_calls {conv : UInt32} {calls : List IkcpCall} {final : Ikcpcb}
    (run : Transition.Run calling (ikcpCreate conv) calls final) : Sane final := by
  apply run.invariant _ (sane_create conv)
  rintro before call after sane ⟨_, performed⟩
  rw [← performed]
  exact sane.perform call

theorem sane_of_calls_sent :
    Sane (IkcpCall.perform (IkcpCall.perform (ikcpCreate 7) (.send [1, 2, 3])) (.update 5)) :=
  sane_of_calls (.snoc (.snoc (.refl _) ⟨rfl, rfl⟩) ⟨by decide, rfl⟩)

end Kcp
end ServerTech
