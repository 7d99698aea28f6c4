import ServerTech.Kcp.Emission
import ServerTech.Kcp.Frame
import ServerTech.Kcp.Hearing

namespace ServerTech
namespace Kcp

/-!
# What waits in the receive buffer

Every call that could move segments to the receive queue moves as many as it
can.  So the number that is expected next waits in the receive buffer only
while at least 128 segments wait in the queue, the least receive window.  A
reader who takes messages until there is no whole one leaves fewer segments
than that.

The window field of a segment has two bytes.  The results about progress are
for receive windows that it can hold, and for messages whose length an `int`
can hold.
-/

/-! ## A steady receiver -/

/-- The number expected next waits only behind a full queue, and both windows
are open and can be told to the peer. -/
structure Steadiness (rcvNxt rcvWnd sndWnd : UInt32) (rcvBuf rcvQueue : List Ikcpseg) : Prop where
  waits : rcvNxt ∈ numbers rcvBuf -> 128 ≤ rcvQueue.length
  own : sndWnd ≠ 0
  narrow : rcvWnd.toNat ≤ 65535

/-- A steady control block. -/
abbrev Steady (kcp : Ikcpcb) : Prop :=
  Steadiness kcp.rcvNxt kcp.rcvWnd kcp.sndWnd kcp.rcvBuf kcp.rcvQueue

/-- Lengths that an `int` can hold, and receive windows that two bytes can hold. -/
def IkcpCall.Sized : IkcpCall -> Prop
  | .send buffer => buffer.length < 2147483648
  | .wndsize _ rcvwnd => rcvwnd ≤ 65535
  | _ => True

instance : (call : IkcpCall) -> Decidable call.Sized
  | .send buffer => inferInstanceAs (Decidable (buffer.length < 2147483648))
  | .wndsize _ rcvwnd => inferInstanceAs (Decidable (rcvwnd ≤ 65535))
  | .recv _ | .input _ | .update _ | .flush | .setmtu _ | .interval _ | .nodelay .. => isTrue trivial

theorem steady_create (conv : UInt32) : Steady (ikcpCreate conv) where
  waits := fun member => nomatch member
  own := (by decide : (32 : UInt32) ≠ 0)
  narrow := (by decide : (128 : UInt32).toNat ≤ 65535)

/-- After segments have moved, the next number waits only behind a full queue. -/
theorem waits_moved {kcp : Ikcpcb} {front back : List Ikcpseg} (receiving : Receiving kcp)
    (movable : Movable kcp front back)
    (member : (kcp.moved front back).rcvNxt ∈ numbers (kcp.moved front back).rcvBuf) :
    128 ≤ (kcp.moved front back).rcvQueue.length := by
  rcases (receiving.moved movable).ascending.first member with ⟨others, start⟩
  have here : numbers back = (kcp.rcvNxt + UInt32.ofNat front.length) :: others := start
  cases back with
  | nil => cases here
  | cons seg rest =>
      have full := UInt32.le_iff_toNat_le.mp (movable.stuck seg rest rfl (List.cons.inj here).1)
      have length : (kcp.moved front (seg :: rest)).rcvQueue.length =
          kcp.rcvQueue.length + front.length := List.length_append
      have window := receiving.window
      rw [receiving.queued, ← UInt32.ofNat_add, UInt32.toNat_ofNat'] at full
      omega

theorem Steadiness.inputStep {seg : Ikcpseg} {kcp after : Ikcpcb} (steady : Steady kcp)
    (sane : Sane kcp) (step : InputStep seg kcp after) : Steady after := by
  cases step with
  | measure | una | ack | late => exact steady
  | repeated _ _ movable =>
      have pushed : Receiving (ikcpAckPush kcp seg.sn seg.ts) := sane.receiving
      exact ⟨waits_moved pushed movable, steady.own, steady.narrow⟩
  | data _ expected _ placed movable =>
      have pushed : Receiving (ikcpAckPush kcp seg.sn seg.ts) := sane.receiving
      exact ⟨waits_moved (pushed.inserted expected placed) movable, steady.own, steady.narrow⟩

theorem Steadiness.inputSteps {heard : Ikcpseg -> Prop} {kcp after : Ikcpcb} (steady : Steady kcp)
    (sane : Sane kcp) (wnd : forall seg, heard seg -> seg.wnd.toNat ≤ 65535)
    (steps : InputSteps heard kcp after) : Steady after := by
  induction steps with
  | refl => exact steady
  | snoc earlier known step inductionHypothesis =>
      exact inductionHypothesis.inputStep (sane.inputSteps wnd earlier) step

theorem Steadiness.input {kcp : Ikcpcb} (steady : Steady kcp) (sane : Sane kcp)
    (data : List UInt8) : Steady (ikcpInput kcp data).1 := by
  rcases ikcpInput_steps kcp data with ⟨middle, sndBuf, cwnd, incr, steps, _, equal⟩
  have reached := steady.inputSteps sane (fun seg member => scanSegs_wnd member) steps
  rw [equal]
  exact reached

theorem Steadiness.flush {kcp : Ikcpcb} (steady : Steady kcp) : Steady (ikcpFlush kcp).1 := by
  rcases ikcpFlush_keeps kcp with ⟨rcvBuf, rcvQueue, rcvNxt, rcvWnd, sndWnd, _⟩
  rw [Steady, rcvBuf, rcvQueue, rcvNxt, rcvWnd, sndWnd]
  exact steady

theorem Steadiness.update {kcp : Ikcpcb} (steady : Steady kcp) (current : UInt32) :
    Steady (ikcpUpdate kcp current).1 := by
  rcases ikcpUpdate_cases kcp current with ⟨updated, tsFlush, _, flushed | waited⟩
  · have clocked : Steady { kcp with current := current, updated := updated, tsFlush := tsFlush } :=
      steady
    rw [flushed]
    exact clocked.flush
  · rw [waited]
    exact steady

theorem Steadiness.recv {kcp : Ikcpcb} (steady : Steady kcp) (sane : Sane kcp) (len : Int32) :
    Steady (ikcpRecv kcp len).1 := by
  rcases ikcpRecv_cases kcp len with ⟨code, _, equal⟩ | ⟨probe, _, _, equal⟩
  · rw [equal]
    exact steady
  · have taken : Receiving (if len < 0 then kcp else kcp.withoutMessage) ∧
        (if len < 0 then kcp else kcp.withoutMessage).sndWnd = kcp.sndWnd ∧
        (if len < 0 then kcp else kcp.withoutMessage).rcvWnd = kcp.rcvWnd := by
      split
      · exact ⟨sane.receiving, rfl, rfl⟩
      · exact ⟨sane.receiving.withoutMessage, rfl, rfl⟩
    rcases taken with ⟨receiving, own, narrow⟩
    rcases moveAvailable_spec (if len < 0 then kcp else kcp.withoutMessage) with
      ⟨front, back, movable, moved⟩
    rw [equal, moved]
    refine ⟨waits_moved receiving movable, ?_, ?_⟩
    · exact own ▸ steady.own
    · exact narrow ▸ steady.narrow

theorem Steadiness.send {kcp : Ikcpcb} (steady : Steady kcp) (sane : Sane kcp)
    (buffer : List UInt8) : Steady (ikcpSend kcp buffer).1 := by
  have size := sane.tuned.mss_pos
  have unit := sane.tuned.unit
  rcases ikcpSend_spec kcp buffer (by omega) with refused | ⟨bytes, filled, segments, taking, equal⟩
  · rw [refused]
    exact steady
  · rw [equal]
    cases taking.extended <;> exact steady

theorem Steadiness.wndsize {kcp : Ikcpcb} (steady : Steady kcp) (sndwnd : Int32) {rcvwnd : Int32}
    (sized : rcvwnd ≤ 65535) : Steady (ikcpWndsize kcp sndwnd rcvwnd) := by
  have zero : (0 : Int32).toInt = 0 := rfl
  have first : Steady (if 0 < sndwnd then { kcp with sndWnd := sndwnd.toUInt32 } else kcp) := by
    split
    case isTrue set_ =>
      refine ⟨steady.waits, ?_, steady.narrow⟩
      rw [Int32.lt_iff_toInt_lt, zero] at set_
      have value := Serial.toNat_toUInt32 (Int.le_of_lt set_)
      intro none_
      have size : sndwnd.toUInt32.toNat = 0 := congrArg UInt32.toNat none_
      omega
    case isFalse => exact steady
  unfold ikcpWndsize
  generalize (if 0 < sndwnd then { kcp with sndWnd := sndwnd.toUInt32 } else kcp) = start at first ⊢
  by_cases set_ : 0 < rcvwnd
  · have narrow : (imax rcvwnd.toUInt32 ikcpWndRcv).toNat ≤ 65535 := by
      have limit : (65535 : Int32).toInt = 65535 := rfl
      have least : ikcpWndRcv.toNat = 128 := rfl
      rw [Int32.lt_iff_toInt_lt, zero] at set_
      rw [Int32.le_iff_toInt_le, limit] at sized
      have value := Serial.toNat_toUInt32 (Int.le_of_lt set_)
      rw [imax]
      split <;> omega
    simp only [if_pos set_]
    exact ⟨first.waits, first.own, narrow⟩
  · simp only [if_neg set_]
    exact first

theorem Steadiness.perform {kcp : Ikcpcb} (steady : Steady kcp) (sane : Sane kcp) {call : IkcpCall}
    (sized : call.Sized) : Steady (call.perform kcp) := by
  cases call with
  | send buffer => exact steady.send sane buffer
  | recv len => exact steady.recv sane len
  | input data => exact steady.input sane data
  | update current => exact steady.update current
  | flush => exact steady.flush
  | setmtu unit =>
      rcases ikcpSetmtu_eq kcp unit with ⟨_, _, _, equal⟩
      rw [IkcpCall.perform, equal]
      exact steady
  | interval period => exact steady
  | nodelay fast period resend nc =>
      rcases ikcpNodelay_eq kcp fast period resend nc with ⟨_, _, _, _, _, equal⟩
      rw [IkcpCall.perform, equal]
      exact steady
  | wndsize sndwnd rcvwnd => exact steady.wndsize sndwnd sized

/-! ## Taking messages -/

/-- With no whole message in it, a receive queue ends before the message that
its first segment starts. -/
theorem unfinished_queue {kcp : Ikcpcb} {seg : Ikcpseg} {others : List Ikcpseg} (sane : Sane kcp)
    (few : seg.frg.toNat < 128) (queue : kcp.rcvQueue = seg :: others)
    (none_ : ikcpPeeksize kcp < 0) : others.length < seg.frg.toNat := by
  have queued := sane.receiving.queued
  have short := sane.receiving.short
  rw [ikcpPeeksize, queue] at none_
  by_cases last : seg.frg = 0
  · simp only [if_pos last] at none_
    omega
  · by_cases missing : kcp.nrcvQue < seg.frg + 1
    · have less := UInt32.lt_iff_toNat_lt.mp missing
      have one : (1 : UInt32).toNat = 1 := rfl
      rw [queued, queue, UInt32.toNat_ofNat', UInt32.toNat_add, one, List.length_cons] at less
      rw [queue, List.length_cons] at short
      omega
    · simp only [if_neg last, if_neg missing] at none_
      omega

/-- With no whole message in it, a receive queue is short. -/
theorem short_queue {kcp : Ikcpcb} (sane : Sane kcp)
    (modest : forall seg, seg ∈ kcp.rcvQueue -> seg.frg.toNat < 128)
    (none_ : ikcpPeeksize kcp < 0) : kcp.rcvQueue.length < 128 := by
  cases queue : kcp.rcvQueue with
  | nil => exact Nat.zero_lt_succ _
  | cons seg others =>
      have few := modest seg (by rw [queue]; exact List.mem_cons_self)
      have less := unfinished_queue sane few queue none_
      rw [List.length_cons]
      omega

theorem length_moveAvailable (kcp : Ikcpcb) :
    (moveAvailable kcp).rcvQueue.length + (moveAvailable kcp).rcvBuf.length =
      kcp.rcvQueue.length + kcp.rcvBuf.length := by
  rcases moveAvailable_spec kcp with ⟨front, back, movable, moved⟩
  rw [moved, movable.split, Ikcpcb.moved, List.length_append, List.length_append, Nat.add_assoc]

theorem mergeFragment_pos {segments : List Ikcpseg} (some_ : segments ≠ []) :
    0 < (mergeFragment segments).1.length := by
  cases segments with
  | nil => exact absurd rfl some_
  | cons seg others =>
      rw [mergeFragment]
      split <;> exact Nat.zero_lt_succ _

/-- Taking a message leaves fewer segments, and keeps a question for the window. -/
theorem ikcpRecv_takes {kcp : Ikcpcb} (known : 0 ≤ ikcpPeeksize kcp)
    (fits : ikcpPeeksize kcp < 2147483648) :
    (ikcpRecv kcp 2147483647).1.rcvQueue.length + (ikcpRecv kcp 2147483647).1.rcvBuf.length <
        kcp.rcvQueue.length + kcp.rcvBuf.length ∧
      (Asked kcp.probe -> Asked (ikcpRecv kcp 2147483647).1.probe) := by
  have some_ : kcp.rcvQueue ≠ [] := by
    intro none_
    rw [ikcpPeeksize, none_] at known
    exact absurd known (by decide : ¬ (0 : Int) ≤ -1)
  have enough : ¬ (if (2147483647 : Int32) < 0 then -2147483647 else 2147483647 : Int32).toInt <
      ikcpPeeksize kcp := by
    have limit : (if (2147483647 : Int32) < 0 then -2147483647 else 2147483647 : Int32).toInt =
        2147483647 := by decide
    omega
  have positive : ¬ (2147483647 : Int32) < 0 := by decide
  have moved := length_moveAvailable kcp.withoutMessage
  have merged := congrArg List.length (mergeFragment_append kcp.rcvQueue)
  have taken := mergeFragment_pos some_
  rw [List.length_append] at merged
  rw [ikcpRecv, if_neg some_, if_neg (Int.not_lt.mpr known), if_neg enough]
  simp only [if_neg positive]
  constructor
  · rw [moved]
    have rest : kcp.withoutMessage.rcvQueue.length + kcp.withoutMessage.rcvBuf.length =
        (mergeFragment kcp.rcvQueue).2.length + kcp.rcvBuf.length := rfl
    omega
  · intro asked
    have same : (moveAvailable kcp.withoutMessage).probe = kcp.probe := by
      rcases moveAvailable_spec kcp.withoutMessage with ⟨front, back, _, equal⟩
      rw [equal]
      rfl
    rw [same]
    split
    · exact asked.or _
    · exact asked

end Kcp
end ServerTech
