import ServerTech.Kcp.Frame
import ServerTech.Kcp.Session

namespace ServerTech
namespace Kcp

open Transition

/-!
# The transfer unit of a KCP endpoint

The block of the output buffer is for three transfer units and three heads, in 32
bits.  A smaller transfer unit does not cut the segments that are already there.
As long as none is set that is too small for them, or too large for the sums of
two lengths, every datagram fits the transfer unit, and no call makes a fault.
-/

/-- The calls that set no transfer unit too small for a segment that waits, and
none of a gigabyte or more. -/
def Fitting (kcp : Ikcpcb) : IkcpCall -> Prop
  | .setmtu unit => 50 ≤ unit -> unit < 1073741824 ∧ forall seg,
      seg ∈ kcp.sndQueue ++ kcp.sndBuf -> (24 + seg.data.length : Int) ≤ unit.toInt
  | _ => True

instance (kcp : Ikcpcb) : (call : IkcpCall) -> Decidable (Fitting kcp call)
  | .setmtu unit => inferInstanceAs (Decidable (50 ≤ unit -> unit < 1073741824 ∧ forall seg,
      seg ∈ kcp.sndQueue ++ kcp.sndBuf -> (24 + seg.data.length : Int) ≤ unit.toInt))
  | .send _ | .recv _ | .input _ | .update _ | .flush | .interval _ | .nodelay .. | .wndsize .. =>
      isTrue trivial

/-- All segments of the lists fit the transfer unit, and the block holds three
transfer units and three heads. -/
structure Holding (mtu bufferSize : UInt32) (sndQueue sndBuf : List Ikcpseg) : Prop where
  unit : mtu.toNat < 1073741824
  block : bufferSize.toNat = (mtu.toNat + 24) * 3
  fits : forall seg, seg ∈ sndQueue ++ sndBuf -> 24 + seg.data.length ≤ mtu.toNat

/-- All segments of an endpoint fit its transfer unit. -/
abbrev Held (kcp : Ikcpcb) : Prop :=
  Holding kcp.mtu kcp.bufferSize kcp.sndQueue kcp.sndBuf

theorem held_create (conv : UInt32) : Held (ikcpCreate conv) where
  unit := (by decide : (1400 : UInt32).toNat < 1073741824)
  block := (by decide : (((1400 : UInt32) + 24) * 3).toNat = ((1400 : UInt32).toNat + 24) * 3)
  fits := fun _ member => nomatch member

section

variable {mtu bufferSize : UInt32} {sndQueue sndBuf : List Ikcpseg}

theorem Holding.of_lasting {relabelled : List Ikcpseg}
    (holding : Holding mtu bufferSize sndQueue sndBuf)
    (same : relabelled.map Ikcpseg.lasting = sndBuf.map Ikcpseg.lasting) :
    Holding mtu bufferSize sndQueue relabelled := by
  refine ⟨holding.unit, holding.block, fun seg member => ?_⟩
  rcases List.mem_append.mp member with queued | buffered
  · exact holding.fits seg (List.mem_append_left _ queued)
  · have lasting : seg.lasting ∈ sndBuf.map Ikcpseg.lasting := by
      rw [← same]
      exact List.mem_map_of_mem buffered
    rcases List.mem_map.mp lasting with ⟨old, inside, equal⟩
    have data : old.data = seg.data := congrArg (fun seg => seg.data) equal
    rw [← data]
    exact holding.fits old (List.mem_append_right _ inside)

theorem Holding.fewer {kept : List Ikcpseg} (holding : Holding mtu bufferSize sndQueue sndBuf)
    (part : forall seg, seg ∈ kept -> seg ∈ sndBuf) : Holding mtu bufferSize sndQueue kept := by
  refine ⟨holding.unit, holding.block, fun seg member => ?_⟩
  rcases List.mem_append.mp member with queued | buffered
  · exact holding.fits seg (List.mem_append_left _ queued)
  · exact holding.fits seg (List.mem_append_right _ (part seg buffered))

end

theorem held_inputSteps {known : Ikcpseg -> Prop} {kcp after : Ikcpcb}
    (steps : InputSteps known kcp after) (held : Held kcp) : Held after := by
  induction steps with
  | refl => exact held
  | snoc _ _ step inductionHypothesis =>
      cases step with
      | measure _ _ _ _ _ _ _ => exact inductionHypothesis
      | late _ _ => exact inductionHypothesis
      | repeated _ _ _ => exact inductionHypothesis
      | data _ _ _ _ _ => exact inductionHypothesis
      | una split _ =>
          apply inductionHypothesis.fewer
          intro seg member
          rw [split]
          exact List.mem_append_right _ member
      | ack _ split _ =>
          apply inductionHypothesis.fewer
          intro seg member
          rw [split]
          rcases List.mem_append.mp member with before | behind
          · exact List.mem_append_left _ before
          · exact List.mem_append_right _ (List.mem_cons_of_mem _ behind)

theorem held_send {kcp : Ikcpcb} (sane : Sane kcp) (held : Held kcp) (buffer : List UInt8) :
    Held (ikcpSend kcp buffer).1 := by
  have size := sane.tuned.mss_pos
  have unit := sane.tuned.unit
  rcases ikcpSend_spec kcp buffer (by omega) with refused | ⟨bytes, filled, segments, taking, equal⟩
  · rw [refused]
    exact held
  · have fresh : forall seg, seg ∈ segments -> 24 + seg.data.length ≤ kcp.mtu.toNat := by
      intro seg member
      have short := fragments_length_le (taking.cut member)
      omega
    have kept : filled.mtu = kcp.mtu ∧ filled.bufferSize = kcp.bufferSize ∧
        filled.sndBuf = kcp.sndBuf := by
      cases taking.extended <;> exact ⟨rfl, rfl, rfl⟩
    have fits : forall seg, seg ∈ (filled.queued segments).sndQueue ++ kcp.sndBuf ->
        24 + seg.data.length ≤ kcp.mtu.toNat := by
      intro seg member
      rcases List.mem_append.mp member with queued | buffered
      · rcases List.mem_append.mp queued with old | new
        · rcases taking.extended.mem old with there | ⟨_, short⟩
          · exact held.fits seg (List.mem_append_left _ there)
          · omega
        · exact fresh seg new
      · exact held.fits seg (List.mem_append_right _ buffered)
    rw [equal]
    rcases kept with ⟨mtu, bufferSize, sndBuf⟩
    rw [← mtu, ← sndBuf] at fits
    exact ⟨mtu ▸ held.unit, mtu ▸ bufferSize ▸ held.block, fits⟩

theorem held_flush {kcp : Ikcpcb} (held : Held kcp) : Held (ikcpFlush kcp).1 := by
  by_cases idle : kcp.updated = 0
  · rw [ikcpFlush, if_pos idle]
    exact held
  · rcases ikcpFlush_spec idle with ⟨front, back, flushed⟩
    rcases flushed.equal with ⟨_, _, _, _, _, _, _, _, equal⟩
    have numbered : Holding kcp.mtu kcp.bufferSize back
        (kcp.sndBuf ++ numberSegs (numberStamp kcp (ikcpWndUnused kcp)) kcp.sndNxt front) := by
      refine ⟨held.unit, held.block, fun seg member => ?_⟩
      rcases List.mem_append.mp member with queued | buffered
      · apply held.fits seg
        rw [flushed.split]
        exact List.mem_append_left _ (List.mem_append_right _ queued)
      · rcases List.mem_append.mp buffered with old | new
        · exact held.fits seg (List.mem_append_right _ old)
        · rcases mem_numberSegs new with ⟨origin, inside, _, data⟩
          rw [data]
          apply held.fits origin
          rw [flushed.split]
          exact List.mem_append_left _ (List.mem_append_left _ inside)
    rw [equal]
    exact numbered.of_lasting flushed.lasting

theorem held_recv {kcp : Ikcpcb} (held : Held kcp) (len : Int32) : Held (ikcpRecv kcp len).1 := by
  rcases ikcpRecv_cases kcp len with ⟨code, _, equal⟩ | ⟨probe, _, _, equal⟩
  · rw [equal]
    exact held
  · rcases moveAvailable_spec (if len < 0 then kcp else kcp.withoutMessage) with
      ⟨front, back, _, moved⟩
    rw [equal, moved]
    by_cases peek : len < 0
    · rw [if_pos peek]
      exact held
    · rw [if_neg peek]
      exact held

/-- Every fitting call keeps all segments within the transfer unit. -/
theorem held_perform {kcp : Ikcpcb} (sane : Sane kcp) (held : Held kcp) {call : IkcpCall}
    (fitting : Fitting kcp call) : Held (call.perform kcp) := by
  cases call with
  | send buffer => exact held_send sane held buffer
  | recv len => exact held_recv held len
  | input data =>
      rcases ikcpInput_steps kcp data with ⟨middle, sndBuf, cwnd, incr, steps, same, equal⟩
      rw [IkcpCall.perform, equal]
      exact (held_inputSteps steps held).of_lasting same
  | update current =>
      rcases ikcpUpdate_cases kcp current with ⟨updated, tsFlush, _, flushed | waited⟩
      · rw [IkcpCall.perform, flushed]
        exact held_flush held
      · rw [IkcpCall.perform, waited]
        exact held
  | flush => exact held_flush held
  | setmtu unit =>
      have fifty : (50 : Int32).toInt = 50 := rfl
      have gigabyte : (1073741824 : Int32).toInt = 1073741824 := rfl
      have overhead : (24 : UInt32).toNat = 24 := rfl
      have three : (3 : UInt32).toNat = 3 := rfl
      rw [IkcpCall.perform, ikcpSetmtu]
      by_cases small : unit < 50 ∨ unit < 24
      · rw [if_pos small]
        exact held
      · rw [if_neg small]
        have enough : 50 ≤ unit := Int32.not_lt.mp fun less => small (.inl less)
        have least := Int32.le_iff_toInt_le.mp enough
        rw [fifty] at least
        have value := Serial.toNat_toUInt32 (by omega : 0 ≤ unit.toInt)
        have most := Int32.lt_iff_toInt_lt.mp (fitting enough).1
        rw [gigabyte] at most
        refine ⟨?_, ?_, fun seg member => ?_⟩
        · show unit.toUInt32.toNat < 1073741824
          omega
        · show ((unit.toUInt32 + 24) * 3).toNat = (unit.toUInt32.toNat + 24) * 3
          rw [UInt32.toNat_mul, UInt32.toNat_add, overhead, three]
          omega
        · have fits := (fitting enough).2 seg member
          show 24 + seg.data.length ≤ unit.toUInt32.toNat
          omega
  | interval period => exact held
  | nodelay fast period resend nc =>
      rcases ikcpNodelay_eq kcp fast period resend nc with ⟨_, _, _, _, _, equal⟩
      rw [IkcpCall.perform, equal]
      exact held
  | wndsize sndwnd rcvwnd =>
      rcases ikcpWndsize_eq kcp sndwnd rcvwnd with ⟨_, _, equal⟩
      rw [IkcpCall.perform, equal]
      exact held

/-- A flush makes no fault. -/
theorem within_flush {kcp : Ikcpcb} (sane : Sane kcp) (held : Held kcp) :
    (ikcpFlush kcp).2.fault = false ∧ forall datagram, datagram ∈ (ikcpFlush kcp).2.output ->
      datagram ≠ [] ∧ datagram.length ≤ kcp.mtu.toNat := by
  have unit := sane.tuned.unit
  have block := held.block
  have carries := ikcpFlush_carries (Nat.le_refl kcp.mtu.toNat) (by omega)
    (fun seg member => held.fits seg (List.mem_append_left _ member))
    (fun seg member => held.fits seg (List.mem_append_right _ member))
  refine ⟨carries.sound held.unit (by omega), fun datagram member => ?_⟩
  exact ⟨(carries.output datagram member).1, (carries.output datagram member).2.1⟩

/-- No call makes a fault. -/
theorem within_perform {kcp : Ikcpcb} (sane : Sane kcp) (held : Held kcp) (call : IkcpCall) :
    call.fault kcp = false ∧ forall datagram, datagram ∈ call.output kcp ->
      datagram ≠ [] ∧ datagram.length ≤ kcp.mtu.toNat := by
  cases call with
  | flush => exact within_flush sane held
  | update current =>
      rcases ikcpUpdate_cases kcp current with ⟨updated, tsFlush, _, flushed | waited⟩
      · have clocked : Sane { kcp with current := current, updated := updated, tsFlush := tsFlush } :=
          ⟨sane.sending, sane.receiving, sane.tuned⟩
        have within := within_flush clocked held
        rw [← flushed] at within
        exact within
      · have nothing : (IkcpCall.update current).output kcp = [] :=
          congrArg (fun both => both.2.output) waited
        refine ⟨congrArg (fun both => both.2.fault) waited, fun datagram member => ?_⟩
        rw [nothing] at member
        cases member
  | send buffer | recv len | input data | setmtu unit | interval period
  | nodelay fast period resend nc | wndsize sndwnd rcvwnd =>
      exact ⟨rfl, fun _ member => nomatch member⟩

/-- After any calls that set no transfer unit too small for what waits, and none
that is too large, no call makes a fault, and datagrams fit the transfer unit. -/
theorem within_unit_of_calls {conv : UInt32} {calls : List IkcpCall} {kcp : Ikcpcb}
    (run : Run (Restrict Fitting calling) (ikcpCreate conv) calls kcp) :
    kcp.bufferSize.toNat = (kcp.mtu.toNat + 24) * 3 ∧
      forall call : IkcpCall, call.fault kcp = false ∧
        forall datagram, datagram ∈ call.output kcp ->
          datagram ≠ [] ∧ datagram.length ≤ kcp.mtu.toNat := by
  have reached : Sane kcp ∧ Held kcp := by
    apply run.invariant _ ⟨sane_create conv, held_create conv⟩
    rintro before call after ⟨sane, held⟩ ⟨fitting, _, performed⟩
    rw [← performed]
    exact ⟨sane.perform call, held_perform sane held fitting⟩
  rcases reached with ⟨sane, held⟩
  exact ⟨held.block, within_perform sane held⟩

theorem within_unit_of_calls_smaller :
    let kcp := IkcpCall.perform (IkcpCall.perform (ikcpCreate 7) (.send [1, 2, 3])) (.setmtu 50)
    kcp.mtu = 50 ∧ kcp.bufferSize.toNat = (kcp.mtu.toNat + 24) * 3 ∧
      forall call : IkcpCall, call.fault kcp = false ∧
        forall datagram, datagram ∈ call.output kcp ->
          datagram ≠ [] ∧ datagram.length ≤ kcp.mtu.toNat := by
  have run : Run (Restrict Fitting calling) (ikcpCreate 7) [.send [1, 2, 3], .setmtu 50]
      (IkcpCall.perform (IkcpCall.perform (ikcpCreate 7) (.send [1, 2, 3])) (.setmtu 50)) :=
    .snoc (.snoc (.refl _) ⟨trivial, rfl, rfl⟩) ⟨by decide, rfl, rfl⟩
  exact ⟨by decide, within_unit_of_calls run⟩

/-- A segment that is longer than the block for a smaller transfer unit makes a
fault, and so does any head where the size of the block goes round. -/
example :
    let kcp := IkcpCall.perform (IkcpCall.perform (ikcpCreate 7) (.nodelay 1 10 2 1))
      (.send (List.replicate 200 0))
    IkcpCall.fault (IkcpCall.perform kcp (.setmtu 50)) (.update 0) = true ∧
      IkcpCall.fault (IkcpCall.perform kcp (.setmtu 1431655742)) (.update 0) = true := by
  decide +kernel

end Kcp
end ServerTech
