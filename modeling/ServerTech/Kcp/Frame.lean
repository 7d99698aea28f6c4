import ServerTech.Kcp.Windows

namespace ServerTech
namespace Kcp

/-!
# What the calls leave alone

The conversation and the mode of an endpoint stay as they are, and only
`ikcp_update` sets its clock.
-/

theorem ikcpSetmtu_eq (kcp : Ikcpcb) (unit : Int32) :
    Exists fun mtu => Exists fun mss => Exists fun bufferSize =>
      (ikcpSetmtu kcp unit).1 = { kcp with mtu := mtu, mss := mss, bufferSize := bufferSize } := by
  unfold ikcpSetmtu
  split
  · exact ⟨kcp.mtu, kcp.mss, kcp.bufferSize, rfl⟩
  · exact ⟨_, _, _, rfl⟩

theorem ikcpNodelay_eq (kcp : Ikcpcb) (fast period resend nc : Int32) :
    Exists fun nodelay => Exists fun rxMinrto => Exists fun interval => Exists fun fastresend =>
      Exists fun nocwnd => ikcpNodelay kcp fast period resend nc =
        { kcp with
          nodelay := nodelay
          rxMinrto := rxMinrto
          interval := interval
          fastresend := fastresend
          nocwnd := nocwnd } := by
  unfold ikcpNodelay
  by_cases quick : 0 ≤ fast <;> by_cases timed : 0 ≤ period <;> by_cases again : 0 ≤ resend <;>
    by_cases open_ : 0 ≤ nc <;> simp only [quick, timed, again, open_, if_true, if_false] <;>
    exact ⟨_, _, _, _, _, rfl⟩

theorem ikcpWndsize_eq (kcp : Ikcpcb) (sndwnd rcvwnd : Int32) :
    Exists fun sndWnd => Exists fun rcvWnd =>
      ikcpWndsize kcp sndwnd rcvwnd = { kcp with sndWnd := sndWnd, rcvWnd := rcvWnd } := by
  unfold ikcpWndsize
  by_cases sending : 0 < sndwnd <;> by_cases receiving : 0 < rcvwnd <;>
    simp only [sending, receiving, if_true, if_false] <;> exact ⟨_, _, rfl⟩

/-- The conversation and the mode of an endpoint. -/
def Ikcpcb.identity (kcp : Ikcpcb) : UInt32 × Int32 :=
  (kcp.conv, kcp.stream)

/-- The clock of an endpoint: the time of the last update, whether there was
one, and the time of the next flush. -/
def Ikcpcb.clock (kcp : Ikcpcb) : UInt32 × UInt32 × UInt32 :=
  (kcp.current, kcp.updated, kcp.tsFlush)

/-- Identity and clock. -/
def Ikcpcb.frame (kcp : Ikcpcb) : (UInt32 × Int32) × UInt32 × UInt32 × UInt32 :=
  (kcp.identity, kcp.clock)

theorem InputSteps.frame {heard : Ikcpseg -> Prop} {kcp after : Ikcpcb}
    (steps : InputSteps heard kcp after) : after.frame = kcp.frame := by
  induction steps with
  | refl => rfl
  | snoc _ _ step inductionHypothesis =>
      rw [← inductionHypothesis]
      cases step <;> rfl

theorem ikcpFlush_frame (kcp : Ikcpcb) : (ikcpFlush kcp).1.frame = kcp.frame := by
  by_cases idle : kcp.updated = 0
  · rw [ikcpFlush, if_pos idle]
  · rcases ikcpFlush_spec idle with ⟨front, back, flushed⟩
    rcases flushed.equal with ⟨_, _, _, _, _, _, _, _, equal⟩
    rw [equal]
    rfl

theorem ikcpSend_frame {kcp : Ikcpcb} (sane : Sane kcp) (buffer : List UInt8) :
    (ikcpSend kcp buffer).1.frame = kcp.frame := by
  have size := sane.tuned.mss_pos
  have unit := sane.tuned.unit
  rcases ikcpSend_spec kcp buffer (by omega) with refused | ⟨bytes, filled, segments, taking, equal⟩
  · rw [refused]
  · rw [equal]
    cases taking.extended <;> rfl

theorem ikcpRecv_frame (kcp : Ikcpcb) (len : Int32) : (ikcpRecv kcp len).1.frame = kcp.frame := by
  rcases ikcpRecv_cases kcp len with ⟨code, _, equal⟩ | ⟨probe, _, _, equal⟩
  · rw [equal]
  · rcases moveAvailable_spec (if len < 0 then kcp else kcp.withoutMessage) with
      ⟨front, back, _, moved⟩
    rw [equal, moved]
    by_cases peek : len < 0
    · rw [if_pos peek]
      rfl
    · rw [if_neg peek]
      rfl

theorem ikcpInput_frame (kcp : Ikcpcb) (data : List UInt8) :
    (ikcpInput kcp data).1.frame = kcp.frame := by
  rcases ikcpInput_steps kcp data with ⟨middle, sndBuf, cwnd, incr, steps, _, equal⟩
  rw [equal]
  exact steps.frame

/-- Only an update sets the clock, and no call changes the identity. -/
theorem perform_frame {kcp : Ikcpcb} (sane : Sane kcp) (call : IkcpCall) :
    (Exists fun current => call = .update current) ∨ (call.perform kcp).frame = kcp.frame := by
  cases call with
  | send buffer => exact .inr (ikcpSend_frame sane buffer)
  | recv len => exact .inr (ikcpRecv_frame kcp len)
  | input data => exact .inr (ikcpInput_frame kcp data)
  | update current => exact .inl ⟨current, rfl⟩
  | flush => exact .inr (ikcpFlush_frame kcp)
  | setmtu unit =>
      rcases ikcpSetmtu_eq kcp unit with ⟨_, _, _, equal⟩
      rw [IkcpCall.perform, equal]
      exact .inr rfl
  | interval period => exact .inr rfl
  | nodelay fast period resend nc =>
      rcases ikcpNodelay_eq kcp fast period resend nc with ⟨_, _, _, _, _, equal⟩
      rw [IkcpCall.perform, equal]
      exact .inr rfl
  | wndsize sndwnd rcvwnd =>
      rcases ikcpWndsize_eq kcp sndwnd rcvwnd with ⟨_, _, equal⟩
      rw [IkcpCall.perform, equal]
      exact .inr rfl

/-- No call changes the conversation or the mode. -/
theorem perform_identity {kcp : Ikcpcb} (sane : Sane kcp) (call : IkcpCall) :
    (call.perform kcp).identity = kcp.identity := by
  rcases perform_frame sane call with ⟨current, rfl⟩ | same
  · rcases ikcpUpdate_cases kcp current with ⟨updated, tsFlush, _, flushed | waited⟩
    · rw [IkcpCall.perform, flushed]
      exact congrArg Prod.fst (ikcpFlush_frame _)
    · rw [IkcpCall.perform, waited]
      rfl
  · exact congrArg Prod.fst same

end Kcp
end ServerTech
