import ServerTech.Kcp.Windows
import ServerTech.Kcp.Wire

namespace ServerTech
namespace Kcp

/-!
# What a flush says

The other half of what a flush writes: which segments are in its datagrams for
certain.  Every noted acknowledge is, and the window commands that are due, and
every segment of the send buffer that has never been sent or whose time has run
out.  All of them carry the same window.
-/

/-- The flush buffer has taken up these segments: those of the datagrams handed
over, one datagram after the other, and then those that are pending. -/
def Packs (segs : List Ikcpseg) (buffer : FlushBuffer) : Prop :=
  Exists fun parts : List (List Ikcpseg) => Exists fun last : List Ikcpseg =>
    segs = parts.flatten ++ last ∧ buffer.output = parts.map (List.flatMap wireSeg) ∧
      buffer.pending = last.flatMap wireSeg

theorem Packs.empty (size : UInt32) : Packs [] (.new size) :=
  ⟨[], [], rfl, rfl, rfl⟩

theorem Packs.handOver {segs : List Ikcpseg} {buffer : FlushBuffer} (packs : Packs segs buffer) :
    Packs segs buffer.handOver := by
  rcases packs with ⟨parts, last, same, output, pending⟩
  by_cases nothing : buffer.pending.length = 0
  · have none_ : last = [] := by
      cases last with
      | nil => rfl
      | cons seg others =>
          rw [pending, List.flatMap_cons, List.length_append, length_wireSeg] at nothing
          omega
    refine ⟨parts, last, same, ?_, ?_⟩
    · rw [FlushBuffer.handOver, if_pos nothing, output]
    · rw [none_]
      rfl
  · refine ⟨parts ++ [last], [], ?_, ?_, rfl⟩
    · rw [same, List.flatten_append, List.flatten_singleton, List.append_nil]
    · rw [FlushBuffer.handOver, if_neg nothing, output, pending, List.map_append]
      rfl

theorem Packs.room {segs : List Ikcpseg} {buffer : FlushBuffer} (packs : Packs segs buffer)
    (mtu : UInt32) (need : Nat) : Packs segs (buffer.room mtu need) := by
  rw [FlushBuffer.room]
  split
  · exact packs.handOver
  · exact packs

theorem Packs.put {segs : List Ikcpseg} {buffer : FlushBuffer} (packs : Packs segs buffer)
    (seg : Ikcpseg) : Packs (segs ++ [seg]) (buffer.put (wireSeg seg)) := by
  rcases packs with ⟨parts, last, same, output, pending⟩
  refine ⟨parts, last ++ [seg], ?_, output, ?_⟩
  · rw [same, List.append_assoc]
  · rw [FlushBuffer.put, pending, List.flatMap_append, List.flatMap_singleton]

theorem Packs.putHead {segs : List Ikcpseg} {buffer : FlushBuffer} (packs : Packs segs buffer)
    (mtu : UInt32) {seg : Ikcpseg} (bare : seg.data = []) :
    Packs (segs ++ [seg]) (Kcp.putHead mtu seg buffer) := by
  have head : wireSeg seg = ikcpEncodeSeg seg := by rw [wireSeg, bare, List.append_nil]
  rw [Kcp.putHead, ← head]
  exact (packs.room mtu ikcpOverhead).put seg

theorem flushAcks_packs {segs : List Ikcpseg} {buffer : FlushBuffer} (mtu : UInt32)
    {acks : List (UInt32 × UInt32)} {head : Ikcpseg} (bare : head.data = [])
    (packs : Packs segs buffer) :
    Packs (segs ++ acks.map fun ack => { head with sn := ack.1, ts := ack.2 })
        (flushAcks mtu acks head buffer).2 := by
  induction acks generalizing head buffer segs with
  | nil =>
      rw [List.map_nil, List.append_nil]
      exact packs
  | cons ack others inductionHypothesis =>
      rcases ack with ⟨sn, ts⟩
      rw [flushAcks, List.map_cons, List.append_cons]
      exact @inductionHypothesis _ _ { head with sn := sn, ts := ts } bare
        (packs.putHead mtu bare)

/-- The segments of the window commands that are due. -/
def windowSegs (kcp : Ikcpcb) (head : Ikcpseg) : List Ikcpseg :=
  (if kcp.probe &&& ikcpAskSend ≠ 0 then [{ head with cmd := ikcpCmdWask }] else []) ++
    if kcp.probe &&& ikcpAskTell ≠ 0 then [{ head with cmd := ikcpCmdWins }] else []

theorem flushProbe_packs {segs : List Ikcpseg} {buffer : FlushBuffer} {kcp : Ikcpcb}
    {head : Ikcpseg} (bare : head.data = []) (packs : Packs segs buffer) :
    Packs (segs ++ windowSegs kcp head) (flushProbe kcp head buffer) := by
  have asked : Packs
      (segs ++ if kcp.probe &&& ikcpAskSend ≠ 0 then [{ head with cmd := ikcpCmdWask }] else [])
      (if kcp.probe &&& ikcpAskSend ≠ 0 then
        putHead kcp.mtu { head with cmd := ikcpCmdWask } buffer else buffer) := by
    split
    · exact packs.putHead kcp.mtu bare
    · rw [List.append_nil]
      exact packs
  rw [windowSegs, flushProbe, ← List.append_assoc]
  by_cases tell : kcp.probe &&& ikcpAskTell ≠ 0
  · rw [if_pos tell, if_pos tell]
    exact asked.putHead kcp.mtu bare
  · rw [if_neg tell, if_neg tell, List.append_nil]
    exact asked

/-- The segments of the send buffer that a flush sends. -/
def sentSegs (kcp : Ikcpcb) (wnd resent rtomin : UInt32) (segments : List Ikcpseg) :
    List Ikcpseg :=
  segments.filterMap fun segment =>
    if causeOf kcp resent segment = .none then none
    else some { schedule kcp rtomin segment (causeOf kcp resent segment) with
      ts := kcp.current, wnd := wnd, una := kcp.rcvNxt }

theorem flushSegments_packs {kcp : Ikcpcb} {wnd resent rtomin : UInt32} {segs : List Ikcpseg}
    {segments : List Ikcpseg} {flush : FlushState} (packs : Packs segs flush.buffer) :
    Packs (segs ++ sentSegs kcp wnd resent rtomin segments)
      (flushSegments kcp wnd resent rtomin segments flush).2.buffer := by
  induction segments generalizing flush segs with
  | nil =>
      rw [sentSegs, List.filterMap_nil, List.append_nil]
      exact packs
  | cons segment others inductionHypothesis =>
      rw [flushSegments, sentSegs, List.filterMap_cons]
      by_cases idle : causeOf kcp resent segment = .none
      · simp only [if_pos idle]
        exact inductionHypothesis packs
      · simp only [if_neg idle]
        rw [List.append_cons]
        exact inductionHypothesis ((packs.room kcp.mtu _).put _)

/-- A segment is sent that was never sent, or whose time has run out. -/
def Due (kcp : Ikcpcb) (segment : Ikcpseg) : Prop :=
  segment.xmit = 0 ∨ 0 ≤ itimediff kcp.current segment.resendts

theorem causeOf_due {kcp : Ikcpcb} {segment : Ikcpseg} (due : Due kcp segment) (resent : UInt32) :
    causeOf kcp resent segment ≠ .none := by
  rw [causeOf]
  by_cases first : segment.xmit = 0
  · rw [if_pos first]
    exact Cause.noConfusion
  · rcases due with never | late
    · exact absurd never first
    · rw [if_neg first, if_pos late]
      exact Cause.noConfusion

theorem mem_sentSegs {kcp : Ikcpcb} {wnd resent rtomin : UInt32} {segments : List Ikcpseg}
    {segment : Ikcpseg} (member : segment ∈ segments) (due : Due kcp segment) :
    Exists fun seg => seg ∈ sentSegs kcp wnd resent rtomin segments ∧
      seg.lasting = segment.lasting := by
  refine ⟨_, List.mem_filterMap.mpr ⟨segment, member, if_neg (causeOf_due due resent)⟩, ?_⟩
  exact schedule_lasting kcp rtomin segment (causeOf kcp resent segment)

theorem sentSegs_wnd {kcp : Ikcpcb} {wnd resent rtomin : UInt32} {segments : List Ikcpseg}
    {seg : Ikcpseg} (member : seg ∈ sentSegs kcp wnd resent rtomin segments) :
    seg.wnd = wnd ∧ seg.una = kcp.rcvNxt ∧ seg.lasting ∈ segments.map Ikcpseg.lasting := by
  rcases List.mem_filterMap.mp member with ⟨segment, inside, sent⟩
  by_cases idle : causeOf kcp resent segment = .none
  · rw [if_pos idle] at sent
    cases sent
  · rw [if_neg idle] at sent
    cases sent
    refine ⟨rfl, rfl, List.mem_map.mpr ⟨segment, inside, ?_⟩⟩
    exact (schedule_lasting kcp rtomin segment (causeOf kcp resent segment)).symm

/-- The segments that one flush writes. -/
structure Telling (kcp : Ikcpcb) (sndBuf : List Ikcpseg) (segs : List Ikcpseg) : Prop where
  each : forall seg, seg ∈ segs -> seg.wnd = ikcpWndUnused kcp ∧ Written kcp sndBuf seg
  acks : forall sn, sn ∈ kcp.acklist.map Prod.fst ->
    Exists fun seg => seg ∈ segs ∧ seg.cmd = ikcpCmdAck ∧ seg.sn = sn
  ask : (probeWindow { kcp with acklist := [] }).probe &&& ikcpAskSend ≠ 0 ->
    Exists fun seg => seg ∈ segs ∧ seg.cmd = ikcpCmdWask
  tell : (probeWindow { kcp with acklist := [] }).probe &&& ikcpAskTell ≠ 0 ->
    Exists fun seg => seg ∈ segs ∧ seg.cmd = ikcpCmdWins
  due : forall segment, segment ∈ kcp.sndBuf -> Due kcp segment ->
    Exists fun seg => seg ∈ segs ∧ seg.lasting = segment.lasting

theorem mem_windowSegs {kcp : Ikcpcb} {head seg : Ikcpseg} (member : seg ∈ windowSegs kcp head) :
    seg = { head with cmd := ikcpCmdWask } ∨ seg = { head with cmd := ikcpCmdWins } := by
  rcases List.mem_append.mp member with ask | tell
  · split at ask
    case isTrue => exact .inl (List.mem_singleton.mp ask)
    case isFalse => cases ask
  · split at tell
    case isTrue => exact .inr (List.mem_singleton.mp tell)
    case isFalse => cases tell

theorem ask_mem_windowSegs {kcp : Ikcpcb} (head : Ikcpseg) (ask : kcp.probe &&& ikcpAskSend ≠ 0) :
    { head with cmd := ikcpCmdWask } ∈ windowSegs kcp head := by
  rw [windowSegs, if_pos ask]
  exact List.mem_append_left _ (List.mem_singleton_self _)

theorem tell_mem_windowSegs {kcp : Ikcpcb} (head : Ikcpseg)
    (tell : kcp.probe &&& ikcpAskTell ≠ 0) :
    { head with cmd := ikcpCmdWins } ∈ windowSegs kcp head := by
  rw [windowSegs, if_pos tell]
  exact List.mem_append_right _ (List.mem_singleton_self _)

/-- The acknowledges and the window commands of a flush. -/
theorem flushControl_packs (kcp : Ikcpcb) :
    Exists fun sn => Exists fun ts =>
      Packs ((kcp.acklist.map fun ack => { flushHead kcp with sn := ack.1, ts := ack.2 }) ++
        windowSegs (probeWindow { kcp with acklist := [] }) { flushHead kcp with sn := sn, ts := ts })
        (flushControl kcp).2 := by
  have acks : Packs ([] ++ kcp.acklist.map fun ack => { flushHead kcp with sn := ack.1, ts := ack.2 })
      (flushAcks kcp.mtu kcp.acklist (flushHead kcp) (.new kcp.bufferSize)).2 :=
    flushAcks_packs kcp.mtu rfl (.empty _)
  have heads : Exists fun sn => Exists fun ts =>
      (flushAcks kcp.mtu kcp.acklist (flushHead kcp) (.new kcp.bufferSize)).1 =
        { flushHead kcp with sn := sn, ts := ts } :=
    (flushAcks_carries (Nat.le_add_right _ 24) (Nat.le_add_left 24 _) rfl (fun _ _ _ => trivial)
      (Carries.empty (fun _ => True) _ _)).2
  rcases heads with ⟨sn, ts, head⟩
  refine ⟨sn, ts, ?_⟩
  rw [List.nil_append] at acks
  simp only [flushControl]
  generalize flushAcks kcp.mtu kcp.acklist (flushHead kcp) (.new kcp.bufferSize) = acked at acks head ⊢
  rw [head]
  exact flushProbe_packs rfl acks

theorem ikcpFlush_telling {kcp : Ikcpcb} (started : kcp.updated ≠ 0) :
    Exists fun segs => Packs segs (ikcpFlush kcp).2 ∧ (ikcpFlush kcp).2.pending = [] ∧
      Telling kcp (ikcpFlush kcp).1.sndBuf segs := by
  rcases flushControl_spec kcp with ⟨front, back, tsProbe, probeWait, split, roomy, numbered⟩
  rcases ikcpFlush_loop started with ⟨same, resent, rtomin, flush, start, out⟩
  rcases flushControl_packs kcp with ⟨sn, ts, control⟩
  rw [← start] at control
  have packs := (@flushSegments_packs (flushControl kcp).1 (ikcpWndUnused kcp) resent rtomin _
    (flushControl kcp).1.sndBuf flush control).handOver
  rw [← out] at packs
  have nothing : (ikcpFlush kcp).2.pending = [] := by
    rw [out]
    rfl
  refine ⟨_, packs, nothing, ?_, ?_, ?_, ?_, ?_⟩
  · intro seg member
    rcases List.mem_append.mp member with written | sent
    · rcases List.mem_append.mp written with ack | window
      · rcases List.mem_map.mp ack with ⟨noted, inside, rfl⟩
        exact ⟨rfl, .ack rfl rfl rfl rfl (List.mem_map_of_mem inside)⟩
      · rcases mem_windowSegs window with rfl | rfl
        · exact ⟨rfl, .window rfl rfl rfl (.inl rfl)⟩
        · exact ⟨rfl, .window rfl rfl rfl (.inr rfl)⟩
    · rcases sentSegs_wnd sent with ⟨wnd, una, lasting⟩
      rw [← same] at lasting
      rw [numbered] at una
      exact ⟨wnd, .data una lasting⟩
  · intro noted member
    rcases List.mem_map.mp member with ⟨ack, inside, rfl⟩
    exact ⟨_, List.mem_append_left _ (List.mem_append_left _ (List.mem_map_of_mem inside)), rfl, rfl⟩
  · intro ask
    have there := ask_mem_windowSegs { flushHead kcp with sn := sn, ts := ts } ask
    exact ⟨_, List.mem_append_left _ (List.mem_append_right _ there), rfl⟩
  · intro tell
    have there := tell_mem_windowSegs { flushHead kcp with sn := sn, ts := ts } tell
    exact ⟨_, List.mem_append_left _ (List.mem_append_right _ there), rfl⟩
  · intro segment member due
    have numbered_ : segment ∈ (flushControl kcp).1.sndBuf := by
      rw [numbered]
      exact List.mem_append_left _ member
    have late : Due (flushControl kcp).1 segment := by
      rw [numbered]
      exact due
    rcases mem_sentSegs numbered_ late with ⟨seg, sent, lasting⟩
    exact ⟨seg, List.mem_append_right _ sent, lasting⟩

/-- Every segment that is written is in a datagram that is handed over, with others
of the same flush. -/
theorem Packs.datagram {segs : List Ikcpseg} {buffer : FlushBuffer} (packs : Packs segs buffer)
    (nothing : buffer.pending = []) {seg : Ikcpseg} (member : seg ∈ segs) :
    Exists fun part : List Ikcpseg => seg ∈ part ∧ (forall other, other ∈ part -> other ∈ segs) ∧
      part.flatMap wireSeg ∈ buffer.output := by
  rcases packs with ⟨parts, last, same, output, pending⟩
  have none_ : last = [] := by
    cases last with
    | nil => rfl
    | cons first others =>
        have length := congrArg List.length (pending.symm.trans nothing)
        rw [List.flatMap_cons, List.length_append, length_wireSeg, List.length_nil] at length
        omega
  rw [same, none_, List.append_nil] at member
  rcases List.mem_flatten.mp member with ⟨part, inside, here⟩
  refine ⟨part, here, ?_, ?_⟩
  · intro other there
    rw [same]
    exact List.mem_append_left _ (List.mem_flatten.mpr ⟨part, inside, there⟩)
  · rw [output]
    exact List.mem_map_of_mem inside

/-! ## What a flush leaves -/

/-- A flush does not touch what was received, nor the windows of both sides. -/
theorem ikcpFlush_keeps (kcp : Ikcpcb) :
    (ikcpFlush kcp).1.rcvBuf = kcp.rcvBuf ∧ (ikcpFlush kcp).1.rcvQueue = kcp.rcvQueue ∧
      (ikcpFlush kcp).1.rcvNxt = kcp.rcvNxt ∧ (ikcpFlush kcp).1.rcvWnd = kcp.rcvWnd ∧
      (ikcpFlush kcp).1.sndWnd = kcp.sndWnd ∧ (ikcpFlush kcp).1.rmtWnd = kcp.rmtWnd := by
  by_cases started : kcp.updated = 0
  · rw [ikcpFlush, if_pos started]
    exact ⟨rfl, rfl, rfl, rfl, rfl, rfl⟩
  · rcases ikcpFlush_spec started with ⟨front, back, flushed⟩
    rcases flushed.equal with ⟨tsProbe, probeWait, ssthresh, cwnd, incr, xmit, resendCnt, state, equal⟩
    rw [equal]
    exact ⟨rfl, rfl, rfl, rfl, rfl, rfl⟩

/-- A flush moves segments from the queue to the buffer, and numbers them. -/
theorem ikcpFlush_backlog (kcp : Ikcpcb) :
    Exists fun count => (ikcpFlush kcp).1.sndQueue.length + count = kcp.sndQueue.length ∧
      (ikcpFlush kcp).1.sndBuf.length = kcp.sndBuf.length + count ∧
      (ikcpFlush kcp).1.sndNxt = kcp.sndNxt + UInt32.ofNat count := by
  by_cases started : kcp.updated = 0
  · rw [ikcpFlush, if_pos started]
    exact ⟨0, rfl, rfl, (UInt32.add_zero _).symm⟩
  · rcases ikcpFlush_spec started with ⟨front, back, flushed⟩
    have length := length_of_lasting flushed.lasting
    rw [List.length_append, length_numberSegs] at length
    rcases flushed.equal with ⟨tsProbe, probeWait, ssthresh, cwnd, incr, xmit, resendCnt, state, equal⟩
    refine ⟨front.length, ?_, length, ?_⟩
    · rw [equal, flushed.split, List.length_append, Nat.add_comm]
      rfl
    · rw [equal]
      rfl

theorem reopened (kcp : Ikcpcb) :
    (if kcp.cwnd < 1 then { kcp with cwnd := 1, incr := kcp.mss } else kcp).cwnd ≠ 0 := by
  split
  case isTrue narrow => exact (by decide : (1 : UInt32) ≠ 0)
  case isFalse wide =>
    intro closed
    rw [closed] at wide
    exact wide (by decide)

/-- A flush leaves the congestion window open. -/
theorem ikcpFlush_cwnd {kcp : Ikcpcb} (started : kcp.updated ≠ 0) :
    (ikcpFlush kcp).1.cwnd ≠ 0 := by
  rw [ikcpFlush, if_neg started]
  exact reopened _

/-- What a flush numbers, it takes from the front of the queue. -/
theorem flushControl_eq (kcp : Ikcpcb) :
    (flushControl kcp).1 = numberFrom (flushWindow kcp) (ikcpWndUnused kcp) kcp.sndQueue
      { probeWindow kcp with acklist := [], probe := 0 } := by
  rcases probeWindow_eq kcp with ⟨tsProbe, probeWait, probe, equal⟩
  have same : probeWindow { kcp with acklist := [] } = { probeWindow kcp with acklist := [] } := by
    unfold probeWindow
    split
    · split
      · rfl
      · split <;> rfl
    · rfl
  simp only [flushControl, same]
  rw [equal]
  rfl

theorem numberFrom_eq (cwnd wnd : UInt32) (kcp : Ikcpcb) :
    Exists fun front => Exists fun back =>
      numberFrom cwnd wnd kcp.sndQueue kcp = kcp.numbered wnd front back := by
  rcases numberFrom_spec cwnd wnd (List.nil_append kcp.sndQueue).symm .zero with
    ⟨front, back, _, _, equal⟩
  rw [Ikcpcb.numbered_nil] at equal
  exact ⟨front, back, equal⟩

/-- A flush that meets a closed window waits before it asks for the window. -/
theorem ikcpFlush_probeWait {kcp : Ikcpcb} (started : kcp.updated ≠ 0) (closed : kcp.rmtWnd = 0)
    (idle : kcp.probeWait = 0) : (ikcpFlush kcp).1.probeWait ≠ 0 := by
  have waiting : (probeWindow kcp).probeWait = ikcpProbeInit := by
    rw [probeWindow, if_pos closed, if_pos idle]
  have queue : (probeWindow kcp).sndQueue = kcp.sndQueue := by
    rcases probeWindow_eq kcp with ⟨tsProbe, probeWait, probe, equal⟩
    rw [equal]
  have control : (flushControl kcp).1.probeWait = ikcpProbeInit := by
    rw [flushControl_eq, ← queue]
    rcases numberFrom_eq (flushWindow kcp) (ikcpWndUnused kcp)
      { probeWindow kcp with acklist := [], probe := 0 } with ⟨front, back, equal⟩
    rw [equal]
    exact waiting
  have same : (ikcpFlush kcp).1.probeWait = (flushControl kcp).1.probeWait := by
    rw [ikcpFlush, if_neg started]
    simp only
    generalize flushSegments (flushControl kcp).1 _ _ _ _ _ = flushed
    rcases shrinkCwnd_eq { (flushControl kcp).1 with
      sndBuf := flushed.1
      xmit := flushed.2.xmit
      resendCnt := flushed.2.resendCnt
      state := flushed.2.state } (flushWindow kcp)
      (if 0 < (flushControl kcp).1.fastresend then (flushControl kcp).1.fastresend.toUInt32
        else 0xffffffff) flushed.2.change flushed.2.lost with ⟨ssthresh, window, incr, equal⟩
    rw [equal]
  rw [same, control]
  decide

theorem numberFrom_sndBuf (cwnd wnd : UInt32) (waiting : List Ikcpseg) (kcp : Ikcpcb) :
    kcp.sndBuf.length ≤ (numberFrom cwnd wnd waiting kcp).sndBuf.length := by
  induction waiting generalizing kcp with
  | nil => exact Nat.le_refl _
  | cons newseg others inductionHypothesis =>
      rw [numberFrom]
      split
      · refine Nat.le_trans ?_ (inductionHypothesis _)
        rw [List.length_append]
        exact Nat.le_add_right _ _
      · exact Nat.le_refl _

theorem imin_ne_zero {a b : UInt32} (left : a ≠ 0) (right : b ≠ 0) : imin a b ≠ 0 := by
  rw [imin]
  split
  · exact left
  · exact right

/-- With an empty send buffer and open windows, a flush numbers a segment. -/
theorem ikcpFlush_numbers {kcp : Ikcpcb} (started : kcp.updated ≠ 0) (sending : Sending kcp)
    (buffer : kcp.sndBuf = []) (queue : kcp.sndQueue ≠ []) (own : kcp.sndWnd ≠ 0)
    (peer : kcp.rmtWnd ≠ 0) (open_ : kcp.cwnd ≠ 0) : (ikcpFlush kcp).1.sndBuf ≠ [] := by
  have oldest : kcp.sndNxt = kcp.sndUna := by
    have head := sending.oldest
    rw [buffer] at head
    exact head
  have window : flushWindow kcp ≠ 0 := by
    rw [flushWindow]
    split
    · exact imin_ne_zero open_ (imin_ne_zero own peer)
    · exact imin_ne_zero own peer
  have room : itimediff kcp.sndNxt (kcp.sndUna + flushWindow kcp) < 0 := by
    have least : (flushWindow kcp).toNat ≠ 0 := fun none_ => window (UInt32.toNat_inj.mp none_)
    have most := Nat.le_trans (flushWindow_le kcp) sending.peer
    have start : Serial.offset kcp.sndUna kcp.sndUna = 0 := Serial.offset_eq_zero_iff.mpr rfl
    have ahead : Serial.offset kcp.sndUna (kcp.sndUna + flushWindow kcp) =
        (flushWindow kcp).toNat := by
      have sum := @Serial.offset_add kcp.sndUna kcp.sndUna (flushWindow kcp).toNat (by omega)
      rw [UInt32.ofNat_toNat, start, Nat.zero_add] at sum
      exact sum
    rw [oldest, itimediff, @Serial.difference_of_offset kcp.sndUna kcp.sndUna _ (by omega)
      (by omega)]
    omega
  have control : (flushControl kcp).1.sndBuf ≠ [] := by
    rw [flushControl_eq]
    rcases probeWindow_eq kcp with ⟨tsProbe, probeWait, probe, equal⟩
    rw [equal]
    cases waiting : kcp.sndQueue with
    | nil => exact absurd waiting queue
    | cons newseg others =>
        rw [numberFrom, if_pos room]
        apply List.ne_nil_of_length_pos
        refine Nat.lt_of_lt_of_le ?_ (numberFrom_sndBuf _ _ others _)
        rw [List.length_append]
        exact Nat.lt_of_lt_of_le Nat.one_pos (Nat.le_add_left _ _)
  intro none_
  have length := length_of_lasting (ikcpFlush_loop started).1
  rw [none_] at length
  exact control (List.eq_nil_of_length_eq_zero length.symm)

end Kcp
end ServerTech
