import ServerTech.Kcp.Coherence

namespace ServerTech
namespace Kcp

/-!
# What a datagram brings about

The other half of what a datagram does to a control block: a segment with data
is noted for an acknowledge, an acknowledge takes its number out of the send
buffer, a question for the window is noted, and the window of the last segment
is the window of the peer.
-/

/-! ## The segments one by one -/

/-- Nothing that was noted for an acknowledge gets lost while a datagram is
handled, and the send buffer only gets shorter. -/
structure Going (kcp after : Ikcpcb) : Prop where
  acks : forall sn, sn ∈ kcp.acklist.map Prod.fst -> sn ∈ after.acklist.map Prod.fst
  fewer : after.sndBuf.Sublist kcp.sndBuf
  queue : after.sndQueue = kcp.sndQueue
  next : after.sndNxt = kcp.sndNxt
  windows : after.rcvWnd = kcp.rcvWnd ∧ after.sndWnd = kcp.sndWnd

theorem Going.refl (kcp : Ikcpcb) : Going kcp kcp :=
  ⟨fun _ there => there, .refl _, rfl, rfl, rfl, rfl⟩

theorem Going.trans {kcp middle after : Ikcpcb} (first : Going kcp middle)
    (second : Going middle after) : Going kcp after where
  acks := fun sn there => second.acks sn (first.acks sn there)
  fewer := second.fewer.trans first.fewer
  queue := second.queue.trans first.queue
  next := second.next.trans first.next
  windows := ⟨second.windows.1.trans first.windows.1, second.windows.2.trans first.windows.2⟩

theorem InputStep.going {seg : Ikcpseg} {kcp after : Ikcpcb} (step : InputStep seg kcp after) :
    Going kcp after := by
  have noted : forall sn, sn ∈ kcp.acklist.map Prod.fst ->
      sn ∈ (ikcpAckPush kcp seg.sn seg.ts).acklist.map Prod.fst := by
    intro sn there
    rw [ikcpAckPush, List.map_append]
    exact List.mem_append_left _ there
  cases step with
  | measure => exact ⟨fun _ there => there, .refl _, rfl, rfl, rfl, rfl⟩
  | @una front back split _ =>
      refine ⟨fun _ there => there, ?_, rfl, rfl, rfl, rfl⟩
      rw [split]
      exact List.sublist_append_right _ _
  | @ack front back other _ split _ =>
      refine ⟨fun _ there => there, ?_, rfl, rfl, rfl, rfl⟩
      rw [split]
      exact (List.sublist_cons_self _ _).append_left _
  | late => exact ⟨noted, .refl _, rfl, rfl, rfl, rfl⟩
  | repeated => exact ⟨noted, .refl _, rfl, rfl, rfl, rfl⟩
  | data => exact ⟨noted, .refl _, rfl, rfl, rfl, rfl⟩

theorem InputSteps.going {heard : Ikcpseg -> Prop} {kcp after : Ikcpcb}
    (steps : InputSteps heard kcp after) : Going kcp after := by
  induction steps with
  | refl => exact .refl _
  | snoc _ _ step inductionHypothesis => exact inductionHypothesis.trans step.going

theorem ikcpParseData_eq (kcp : Ikcpcb) (newseg : Ikcpseg) :
    Exists fun rcvBuf => Exists fun nrcvBuf => Exists fun rcvQueue => Exists fun nrcvQue =>
      Exists fun rcvNxt => ikcpParseData kcp newseg =
        { kcp with
          rcvBuf := rcvBuf
          nrcvBuf := nrcvBuf
          rcvQueue := rcvQueue
          nrcvQue := nrcvQue
          rcvNxt := rcvNxt } := by
  unfold ikcpParseData
  split
  · exact ⟨_, _, _, _, _, rfl⟩
  · split
    · next rcvBuf _ =>
        rcases moveAvailable_spec { kcp with rcvBuf := rcvBuf, nrcvBuf := kcp.nrcvBuf + 1 } with
          ⟨front, back, _, moved⟩
        rw [moved]
        exact ⟨_, _, _, _, _, rfl⟩
    · rcases moveAvailable_spec kcp with ⟨front, back, _, moved⟩
      rw [moved]
      exact ⟨_, _, _, _, _, rfl⟩

/-- What `inputPush` changes. -/
theorem inputPush_eq (kcp : Ikcpcb) (seg : Ikcpseg) :
    Exists fun acklist => Exists fun rcvBuf => Exists fun nrcvBuf => Exists fun rcvQueue =>
      Exists fun nrcvQue => Exists fun rcvNxt =>
        (itimediff seg.sn (kcp.rcvNxt + kcp.rcvWnd) < 0 -> seg.sn ∈ acklist.map Prod.fst) ∧
        inputPush kcp seg =
          { kcp with
            acklist := acklist
            rcvBuf := rcvBuf
            nrcvBuf := nrcvBuf
            rcvQueue := rcvQueue
            nrcvQue := nrcvQue
            rcvNxt := rcvNxt } := by
  have noted : seg.sn ∈ (kcp.acklist ++ [(seg.sn, seg.ts)]).map Prod.fst := by
    rw [List.map_append]
    exact List.mem_append_right _ (List.mem_singleton_self _)
  unfold inputPush
  by_cases inside : itimediff seg.sn (kcp.rcvNxt + kcp.rcvWnd) < 0
  · rw [if_pos inside]
    rcases ikcpParseData_eq (ikcpAckPush kcp seg.sn seg.ts) seg with
      ⟨rcvBuf, nrcvBuf, rcvQueue, nrcvQue, rcvNxt, parsed⟩
    by_cases expected : 0 ≤ itimediff seg.sn (ikcpAckPush kcp seg.sn seg.ts).rcvNxt
    · simp only [if_pos expected, parsed]
      exact ⟨_, rcvBuf, nrcvBuf, rcvQueue, nrcvQue, rcvNxt, fun _ => noted, rfl⟩
    · simp only [if_neg expected]
      exact ⟨_, kcp.rcvBuf, kcp.nrcvBuf, kcp.rcvQueue, kcp.nrcvQue, kcp.rcvNxt, fun _ => noted, rfl⟩
  · rw [if_neg inside]
    exact ⟨kcp.acklist, kcp.rcvBuf, kcp.nrcvBuf, kcp.rcvQueue, kcp.nrcvQue, kcp.rcvNxt,
      fun less => absurd less inside, rfl⟩

/-- An acknowledged number leaves a send buffer. -/
theorem removeAck_removes {sn base : UInt32} {limit : Nat} {segments : List Ikcpseg}
    (ascending : Serial.Ascending base limit (numbers segments)) (near : limit ≤ 2147483648) :
    sn ∉ numbers (removeAck sn segments).1 := by
  induction segments with
  | nil => exact fun member => nomatch member
  | cons seg others inductionHypothesis =>
      have ordered := List.pairwise_cons.mp ascending.ordered
      rw [removeAck]
      by_cases same : sn = seg.sn
      · rw [if_pos same]
        intro member
        have less := ordered.1 sn member
        rw [same] at less
        exact Nat.lt_irrefl _ less
      · rw [if_neg same]
        by_cases passed : itimediff sn seg.sn < 0
        · rw [if_pos passed]
          intro member
          rcases List.mem_cons.mp member with first | later
          · exact same first
          · have less := ordered.1 sn later
            have far := ascending.below sn member
            rw [itimediff, Serial.difference_of_offset (Nat.lt_of_lt_of_le far near)
              (Nat.lt_trans less (Nat.lt_of_lt_of_le far near))] at passed
            omega
        · rw [if_neg passed]
          intro member
          rcases List.mem_cons.mp member with first | later
          · exact same first
          · exact inductionHypothesis (ascending.sublist (List.sublist_cons_self _ _)) later

theorem shrink_parseAck_removes {kcp : Ikcpcb} (sending : Sending kcp) (sn : UInt32) :
    sn ∉ numbers (ikcpShrinkBuf (ikcpParseAck kcp sn)).sndBuf := by
  rw [ikcpShrinkBuf_eq, ikcpParseAck]
  have flight := sending.flight
  by_cases outside : itimediff sn kcp.sndUna < 0 ∨ 0 ≤ itimediff sn kcp.sndNxt
  · rw [if_pos outside]
    intro member
    have below := sending.ascending.below sn member
    have start : Serial.offset kcp.sndUna kcp.sndUna = 0 := Serial.offset_eq_zero_iff.mpr rfl
    rw [itimediff, itimediff,
      @Serial.difference_of_offset kcp.sndUna sn kcp.sndUna (by omega) (by omega),
      @Serial.difference_of_offset kcp.sndUna sn kcp.sndNxt (by omega) (by omega)] at outside
    omega
  · rw [if_neg outside]
    exact removeAck_removes sending.ascending (by omega)

/-! ## Datagrams as wholes -/

theorem Going.keeps_away {kcp after : Ikcpcb} (going : Going kcp after) {sn : UInt32}
    (away : sn ∉ numbers kcp.sndBuf) : sn ∉ numbers after.sndBuf :=
  fun member => away ((going.fewer.map Ikcpseg.sn).subset member)

/-- The fold over the segments of a datagram passes a given one. -/
theorem foldl_inputSeg_passes {segs : List Ikcpseg} {seg : Ikcpseg} (member : seg ∈ segs)
    (state : InputState) :
    Exists fun before : InputState => InputSteps (· ∈ segs) state.kcp before.kcp ∧
      InputSteps (· ∈ segs) (inputSeg before seg).kcp (segs.foldl inputSeg state).kcp := by
  rcases List.append_of_mem member with ⟨front, back, split⟩
  refine ⟨front.foldl inputSeg state, ?_, ?_⟩
  · apply (foldl_inputSeg_steps front state).mono
    intro other inside
    rw [split]
    exact List.mem_append_left _ inside
  · rw [split, List.foldl_append, List.foldl_cons]
    apply (foldl_inputSeg_steps back _).mono
    intro other inside
    exact List.mem_append_right _ (List.mem_cons_of_mem _ inside)

theorem ikcpInput_sndBuf (kcp : Ikcpcb) (data : List UInt8) :
    numbers (ikcpInput kcp data).1.sndBuf = numbers (hearing kcp data).sndBuf := by
  rcases ikcpInput_hearing kcp data with ⟨sndBuf, cwnd, incr, same, equal⟩
  rw [equal]
  exact numbers_of_lasting same

/-- A datagram never fills a send buffer. -/
theorem ikcpInput_backlog (kcp : Ikcpcb) (data : List UInt8) :
    (ikcpInput kcp data).1.sndQueue = kcp.sndQueue ∧ (ikcpInput kcp data).1.sndNxt = kcp.sndNxt ∧
      (numbers (ikcpInput kcp data).1.sndBuf).Sublist (numbers kcp.sndBuf) := by
  have going := (foldl_inputSeg_steps (heardSegs kcp.conv data) ⟨kcp, false, 0⟩).going
  refine ⟨?_, ?_, ?_⟩
  · rcases ikcpInput_hearing kcp data with ⟨sndBuf, cwnd, incr, same, equal⟩
    rw [equal]
    exact going.queue
  · rcases ikcpInput_hearing kcp data with ⟨sndBuf, cwnd, incr, same, equal⟩
    rw [equal]
    exact going.next
  · rw [ikcpInput_sndBuf]
    exact going.fewer.map Ikcpseg.sn

theorem inputSeg_notes {state : InputState} {seg : Ikcpseg} (push : seg.cmd = ikcpCmdPush)
    (inside : itimediff seg.sn (state.kcp.rcvNxt + state.kcp.rcvWnd) < 0) :
    seg.sn ∈ (inputSeg state seg).kcp.acklist.map Prod.fst := by
  have other : ¬ seg.cmd = ikcpCmdAck := by
    rw [push]
    decide
  rcases shrink_parseUna { state.kcp with rmtWnd := seg.wnd } seg.una with
    ⟨front, back, _, _, equal⟩
  simp only [inputSeg, if_neg other, if_pos push, equal]
  rcases inputPush_eq (Ikcpcb.keeping { state.kcp with rmtWnd := seg.wnd } back) seg with
    ⟨acklist, rcvBuf, nrcvBuf, rcvQueue, nrcvQue, rcvNxt, noted, pushed⟩
  rw [pushed]
  exact noted inside

section

variable {conv : UInt32} {stream : Int32} {log inLog : List Piece} {arrived : Nat -> Prop}

/-- Data that an endpoint already has, or has next, is noted for an acknowledge. -/
theorem ikcpInput_notes {kcp : Ikcpcb} {data : List UInt8} {seg : Ikcpseg}
    {accepted received : List (List UInt8)}
    (outgoing : Outgoing conv stream log arrived kcp accepted)
    (incoming : Incoming inLog kcp received)
    (heard : forall seg, seg ∈ heardSegs kcp.conv data -> Heard log inLog arrived seg)
    (member : seg ∈ heardSegs kcp.conv data) (push : seg.cmd = ikcpCmdPush)
    (near : seg.sn.toNat ≤ kcp.rcvNxt.toNat) (early : inLog.length < 2147418112)
    (window : 0 < kcp.rcvWnd.toNat ∧ kcp.rcvWnd.toNat ≤ 65535) :
    seg.sn ∈ (ikcpInput kcp data).1.acklist.map Prod.fst := by
  rcases foldl_inputSeg_passes member ⟨kcp, false, 0⟩ with ⟨before, first, second⟩
  rcases inputSteps_coherent outgoing incoming heard first with ⟨_, middle, grows⟩
  have same : before.kcp.rcvWnd = kcp.rcvWnd := first.going.windows.1
  have further := grows.expected
  have expected := middle.expected
  have inside : itimediff seg.sn (before.kcp.rcvNxt + before.kcp.rcvWnd) < 0 := by
    have sum : (before.kcp.rcvNxt + before.kcp.rcvWnd).toNat =
        before.kcp.rcvNxt.toNat + kcp.rcvWnd.toNat := by
      rw [same, UInt32.toNat_add]
      omega
    rw [itimediff, Serial.difference_of_toNat (by omega) (by omega)]
    omega
  rcases ikcpInput_hearing kcp data with ⟨sndBuf, cwnd, incr, _, equal⟩
  rw [equal]
  exact second.going.acks _ (inputSeg_notes push inside)

end

/-- An acknowledged number is no longer in the send buffer. -/
theorem ikcpInput_removes {kcp : Ikcpcb} {data : List UInt8} {seg : Ikcpseg} (sane : Sane kcp)
    (member : seg ∈ heardSegs kcp.conv data) (acknowledge : seg.cmd = ikcpCmdAck) :
    seg.sn ∉ numbers (ikcpInput kcp data).1.sndBuf := by
  rcases foldl_inputSeg_passes member ⟨kcp, false, 0⟩ with ⟨before, first, second⟩
  have middle : Sane before.kcp := sane.inputSteps (fun _ inside => scanSegs_wnd inside) first
  have narrow : forall other, other = seg -> other.wnd.toNat ≤ 65535 := by
    rintro other rfl
    exact scanSegs_wnd member
  have measured : Sane ((opened before.kcp seg).measured seg.ts) :=
    (middle.inputSteps narrow (opened_steps before.kcp seg)).inputSteps narrow
      (measured_steps _ seg)
  have handled : (inputSeg before seg).kcp =
      ikcpShrinkBuf (ikcpParseAck ((opened before.kcp seg).measured seg.ts) seg.sn) := by
    simp only [inputSeg, if_pos acknowledge, inputAck_kcp]
    rfl
  rw [ikcpInput_sndBuf]
  apply second.going.keeps_away
  rw [handled]
  exact shrink_parseAck_removes measured.sending seg.sn

/-! ## Windows -/

theorem word_and_or (first second mask : UInt32) :
    (first ||| second) &&& mask = (first &&& mask) ||| (second &&& mask) := by
  apply UInt32.eq_of_toBitVec_eq
  simp only [UInt32.toBitVec_and, UInt32.toBitVec_or]
  exact BitVec.and_or_distrib_right

/-- An answer about the window is due. -/
def Asked (probe : UInt32) : Prop :=
  probe &&& ikcpAskTell ≠ 0

theorem asked_tell (probe : UInt32) : Asked (probe ||| ikcpAskTell) := by
  rw [Asked, word_and_or]
  intro none_
  exact absurd (UInt32.or_eq_zero_iff.mp none_).2 (by decide)

theorem Asked.or {probe : UInt32} (asked : Asked probe) (more : UInt32) : Asked (probe ||| more) := by
  rw [Asked, word_and_or]
  intro none_
  exact asked (UInt32.or_eq_zero_iff.mp none_).1

/-- When its time has come, a closed window is asked for. -/
theorem probeWindow_asks {kcp : Ikcpcb} (closed : kcp.rmtWnd = 0) (waiting : kcp.probeWait ≠ 0)
    (due : 0 ≤ itimediff kcp.current kcp.tsProbe) : (probeWindow kcp).probe &&& ikcpAskSend ≠ 0 := by
  simp only [probeWindow, if_pos closed, if_neg waiting, if_pos due]
  rw [word_and_or]
  intro none_
  exact absurd (UInt32.or_eq_zero_iff.mp none_).2 (by decide)

/-- The check of the peer's window keeps a question of the peer. -/
theorem probeWindow_asked {kcp : Ikcpcb} (asked : Asked kcp.probe) :
    Asked (probeWindow kcp).probe := by
  rw [probeWindow]
  split
  · split
    · exact asked
    · split
      · exact asked.or _
      · exact asked
  · exact asked

theorem inputAck_windows (state : InputState) (seg : Ikcpseg) :
    (inputAck state seg).kcp.rmtWnd = state.kcp.rmtWnd ∧
      (inputAck state seg).kcp.probe = state.kcp.probe := by
  have same : (state.kcp.measured seg.ts).rmtWnd = state.kcp.rmtWnd ∧
      (state.kcp.measured seg.ts).probe = state.kcp.probe := by
    rw [Ikcpcb.measured]
    split
    · rw [ikcpUpdateAck]
      by_cases first : state.kcp.rxSrtt = 0
      · simp only [if_pos first]
        exact ⟨trivial, trivial⟩
      · simp only [if_neg first]
        exact ⟨trivial, trivial⟩
    · exact ⟨rfl, rfl⟩
  rw [inputAck_kcp]
  rcases shrink_parseAck (state.kcp.measured seg.ts) seg.sn with equal | ⟨_, _, _, _, _, equal⟩
  · rw [equal]
    exact same
  · rw [equal]
    exact same

/-- What a segment says about the windows. -/
theorem inputSeg_windows (state : InputState) (seg : Ikcpseg) :
    (inputSeg state seg).kcp.rmtWnd = seg.wnd ∧
      (inputSeg state seg).kcp.probe =
        if seg.cmd = ikcpCmdWask then state.kcp.probe ||| ikcpAskTell else state.kcp.probe := by
  rcases shrink_parseUna { state.kcp with rmtWnd := seg.wnd } seg.una with
    ⟨front, back, _, _, equal⟩
  by_cases acknowledge : seg.cmd = ikcpCmdAck
  · have other : ¬ seg.cmd = ikcpCmdWask := by
      rw [acknowledge]
      decide
    simp only [inputSeg, if_pos acknowledge, if_neg other, equal]
    exact inputAck_windows _ seg
  · by_cases push : seg.cmd = ikcpCmdPush
    · have other : ¬ seg.cmd = ikcpCmdWask := by
        rw [push]
        decide
      simp only [inputSeg, if_neg acknowledge, if_pos push, if_neg other, equal]
      rcases inputPush_eq (Ikcpcb.keeping { state.kcp with rmtWnd := seg.wnd } back) seg with
        ⟨acklist, rcvBuf, nrcvBuf, rcvQueue, nrcvQue, rcvNxt, _, pushed⟩
      rw [pushed]
      exact ⟨rfl, rfl⟩
    · by_cases asked : seg.cmd = ikcpCmdWask
      · simp only [inputSeg, if_neg acknowledge, if_neg push, if_pos asked, equal]
        exact ⟨rfl, rfl⟩
      · simp only [inputSeg, if_neg acknowledge, if_neg push, if_neg asked, equal]
        exact ⟨rfl, rfl⟩

theorem foldl_inputSeg_rmtWnd {segs : List Ikcpseg} {wnd : UInt32} (some_ : segs ≠ [])
    (each : forall seg, seg ∈ segs -> seg.wnd = wnd) (state : InputState) :
    (segs.foldl inputSeg state).kcp.rmtWnd = wnd := by
  rcases List.eq_nil_or_concat segs with none_ | ⟨front, last, whole⟩
  · exact absurd none_ some_
  · rw [List.concat_eq_append] at whole
    rw [whole, List.foldl_append, List.foldl_cons, List.foldl_nil, (inputSeg_windows _ last).1]
    apply each
    rw [whole]
    exact List.mem_append_right _ (List.mem_singleton_self _)

theorem foldl_inputSeg_asked {segs : List Ikcpseg} {state : InputState}
    (asked : Asked state.kcp.probe ∨ Exists fun seg => seg ∈ segs ∧ seg.cmd = ikcpCmdWask) :
    Asked (segs.foldl inputSeg state).kcp.probe := by
  induction segs generalizing state with
  | nil =>
      rcases asked with before | ⟨_, member, _⟩
      · exact before
      · cases member
  | cons first others inductionHypothesis =>
      rw [List.foldl_cons]
      apply inductionHypothesis
      rw [(inputSeg_windows state first).2]
      rcases asked with before | ⟨seg, member, question⟩
      · left
        split
        · exact before.or _
        · exact before
      · rcases List.mem_cons.mp member with rfl | later
        · rw [if_pos question]
          exact .inl (asked_tell _)
        · exact .inr ⟨seg, later, question⟩

/-- The window of a datagram is the window of the peer. -/
theorem ikcpInput_rmtWnd {kcp : Ikcpcb} {data : List UInt8} {wnd : UInt32}
    (some_ : heardSegs kcp.conv data ≠ [])
    (each : forall seg, seg ∈ heardSegs kcp.conv data -> seg.wnd = wnd) :
    (ikcpInput kcp data).1.rmtWnd = wnd := by
  rcases ikcpInput_hearing kcp data with ⟨sndBuf, cwnd, incr, _, equal⟩
  rw [equal]
  exact foldl_inputSeg_rmtWnd some_ each ⟨kcp, false, 0⟩

/-- A question for the window is noted. -/
theorem ikcpInput_asked {kcp : Ikcpcb} {data : List UInt8} {seg : Ikcpseg}
    (member : seg ∈ heardSegs kcp.conv data) (question : seg.cmd = ikcpCmdWask) :
    Asked (ikcpInput kcp data).1.probe := by
  rcases ikcpInput_hearing kcp data with ⟨sndBuf, cwnd, incr, _, equal⟩
  rw [equal]
  exact foldl_inputSeg_asked (.inr ⟨seg, member, question⟩)

end Kcp
end ServerTech
