import ServerTech.Kcp.Input

namespace ServerTech
namespace Kcp

/-!
# What a KCP endpoint puts on the wire

`ikcp_flush`, `ikcp_update` and `ikcp_check`.  A flush collects heads and data
in the output buffer and hands the buffer to the output function when the next
piece would take it over the transfer unit.  What is handed over is collected
in order.  Nothing checks the size of the allocated block: a write behind it, and
a sum of lengths that is no `int`, are faults, after which the code has no defined
behaviour.
-/

/-! ## The output buffer -/

/-- What `ikcp_flush` has done with its buffer: the size of the block, the bytes
in it, the datagrams handed over, and whether there was a fault. -/
structure FlushBuffer where
  size : Nat
  pending : List UInt8
  output : List (List UInt8)
  fault : Bool
  deriving DecidableEq, Repr

/-- The buffer before anything is written. -/
def FlushBuffer.new (size : UInt32) : FlushBuffer :=
  ⟨size.toNat, [], [], false⟩

theorem FlushBuffer.new_output (size : UInt32) : (FlushBuffer.new size).output = [] :=
  rfl

/-- `ikcp_output` of the pending bytes. -/
def FlushBuffer.handOver (buffer : FlushBuffer) : FlushBuffer :=
  { buffer with
    pending := []
    output := if buffer.pending.length = 0 then buffer.output else buffer.output ++ [buffer.pending] }

/-- Hand the buffer over unless `need` more bytes fit the transfer unit.  The sum
is computed in an `int`. -/
def FlushBuffer.room (mtu : UInt32) (need : Nat) (buffer : FlushBuffer) : FlushBuffer :=
  let buffer := { buffer with
    fault := buffer.fault || decide (2147483647 < buffer.pending.length + need) }
  if mtu.toNat < buffer.pending.length + need then buffer.handOver else buffer

/-- Write behind the pending bytes. -/
def FlushBuffer.put (bytes : List UInt8) (buffer : FlushBuffer) : FlushBuffer :=
  { buffer with
    pending := buffer.pending ++ bytes
    fault := buffer.fault || decide (buffer.size < buffer.pending.length + bytes.length) }

/-- `ikcp_encode_seg`, which takes the low bytes of the narrower fields. -/
def ikcpEncodeSeg (seg : Ikcpseg) : List UInt8 :=
  LittleEndian.encode 4 seg.conv.toNat ++ LittleEndian.encode 1 seg.cmd.toNat ++
    LittleEndian.encode 1 seg.frg.toNat ++ LittleEndian.encode 2 seg.wnd.toNat ++
    LittleEndian.encode 4 seg.ts.toNat ++ LittleEndian.encode 4 seg.sn.toNat ++
    LittleEndian.encode 4 seg.una.toNat ++ LittleEndian.encode 4 seg.data.length

/-! ## Flushing -/

/-- `ikcp_wnd_unused`. -/
def ikcpWndUnused (kcp : Ikcpcb) : UInt32 :=
  if kcp.nrcvQue < kcp.rcvWnd then kcp.rcvWnd - kcp.nrcvQue else 0

/-- The local segment of `ikcp_flush`. -/
def flushHead (kcp : Ikcpcb) : Ikcpseg where
  conv := kcp.conv
  cmd := ikcpCmdAck
  frg := 0
  wnd := ikcpWndUnused kcp
  ts := 0
  sn := 0
  una := kcp.rcvNxt
  resendts := 0
  rto := 0
  fastack := 0
  xmit := 0
  data := []

/-- Write one more head. -/
def putHead (mtu : UInt32) (seg : Ikcpseg) (buffer : FlushBuffer) : FlushBuffer :=
  (buffer.room mtu ikcpOverhead).put (ikcpEncodeSeg seg)

/-- Write the acknowledges.  The local segment keeps the number of the last one. -/
def flushAcks (mtu : UInt32) : List (UInt32 × UInt32) -> Ikcpseg -> FlushBuffer ->
    Ikcpseg × FlushBuffer
  | [], seg, buffer => (seg, buffer)
  | (sn, ts) :: others, seg, buffer =>
      let seg := { seg with sn := sn, ts := ts }
      flushAcks mtu others seg (putHead mtu seg buffer)

/-- Decide whether the window of the peer is to be asked for. -/
def probeWindow (kcp : Ikcpcb) : Ikcpcb :=
  if kcp.rmtWnd = 0 then
    if kcp.probeWait = 0 then
      { kcp with probeWait := ikcpProbeInit, tsProbe := kcp.current + ikcpProbeInit }
    else if 0 ≤ itimediff kcp.current kcp.tsProbe then
      let wait := if kcp.probeWait < ikcpProbeInit then ikcpProbeInit else kcp.probeWait
      let wait := wait + wait / 2
      let wait := if ikcpProbeLimit < wait then ikcpProbeLimit else wait
      { kcp with
        probeWait := wait
        tsProbe := kcp.current + wait
        probe := kcp.probe ||| ikcpAskSend }
    else kcp
  else { kcp with tsProbe := 0, probeWait := 0 }

/-- Write the window commands that are due. -/
def flushProbe (kcp : Ikcpcb) (seg : Ikcpseg) (buffer : FlushBuffer) : FlushBuffer :=
  let buffer := if kcp.probe &&& ikcpAskSend ≠ 0 then
      putHead kcp.mtu { seg with cmd := ikcpCmdWask } buffer else buffer
  if kcp.probe &&& ikcpAskTell ≠ 0 then
    putHead kcp.mtu { seg with cmd := ikcpCmdWins } buffer else buffer

/-- The window of this flush. -/
def flushWindow (kcp : Ikcpcb) : UInt32 :=
  let cwnd := imin kcp.sndWnd kcp.rmtWnd
  if kcp.nocwnd = 0 then imin kcp.cwnd cwnd else cwnd

/-- Move segments of the queue, given as a list, to the send buffer while the
window has room, and number them. -/
def numberFrom (cwnd wnd : UInt32) : List Ikcpseg -> Ikcpcb -> Ikcpcb
  | [], kcp => kcp
  | newseg :: others, kcp =>
      if itimediff kcp.sndNxt (kcp.sndUna + cwnd) < 0 then
        numberFrom cwnd wnd others { kcp with
          sndQueue := others
          sndBuf := kcp.sndBuf ++ [{ newseg with
            conv := kcp.conv
            cmd := ikcpCmdPush
            wnd := wnd
            ts := kcp.current
            sn := kcp.sndNxt
            una := kcp.rcvNxt
            resendts := kcp.current
            rto := kcp.rxRto.toUInt32
            fastack := 0
            xmit := 0 }]
          nsndQue := kcp.nsndQue - 1
          nsndBuf := kcp.nsndBuf + 1
          sndNxt := kcp.sndNxt + 1 }
      else kcp

/-- Why a segment of the send buffer is sent in this flush. -/
inductive Cause
  | first
  | timeout
  | fastack
  | none
  deriving DecidableEq, Repr

/-- Decide whether a segment is to be sent. -/
def causeOf (kcp : Ikcpcb) (resent : UInt32) (segment : Ikcpseg) : Cause :=
  if segment.xmit = 0 then .first
  else if 0 ≤ itimediff kcp.current segment.resendts then .timeout
  else if resent ≤ segment.fastack ∧ (segment.xmit.toInt32 ≤ kcp.fastlimit ∨ kcp.fastlimit ≤ 0) then
    .fastack
  else .none

/-- The timeout of a segment after it has run out once more. -/
def backoff (kcp : Ikcpcb) (rto : UInt32) : UInt32 :=
  if kcp.nodelay = 0 then rto + imax rto kcp.rxRto.toUInt32
  else
    let step := if kcp.nodelay < 2 then rto.toInt32 else kcp.rxRto
    rto + (step / 2).toUInt32

/-- Bring the counters and times of a segment up to date. -/
def schedule (kcp : Ikcpcb) (rtomin : UInt32) (segment : Ikcpseg) : Cause -> Ikcpseg
  | .first => { segment with
      xmit := segment.xmit + 1
      rto := kcp.rxRto.toUInt32
      resendts := kcp.current + kcp.rxRto.toUInt32 + rtomin }
  | .timeout => { segment with
      xmit := segment.xmit + 1
      rto := backoff kcp segment.rto
      resendts := kcp.current + backoff kcp segment.rto }
  | .fastack => { segment with
      xmit := segment.xmit + 1
      fastack := 0
      resendts := kcp.current + segment.rto }
  | .none => segment

/-- What the loop over the send buffer has counted. -/
structure FlushState where
  xmit : UInt32
  resendCnt : UInt32
  state : UInt32
  change : Nat
  lost : Bool
  buffer : FlushBuffer
  deriving DecidableEq, Repr

/-- Send a scheduled segment. -/
def sendSegment (kcp : Ikcpcb) (wnd : UInt32) (segment : Ikcpseg) (cause : Cause)
    (flush : FlushState) : Ikcpseg × FlushState :=
  let segment := { segment with ts := kcp.current, wnd := wnd, una := kcp.rcvNxt }
  (segment,
    { xmit := if cause = .timeout then flush.xmit + 1 else flush.xmit
      resendCnt := if 1 < segment.xmit then flush.resendCnt + 1 else flush.resendCnt
      state := if kcp.deadLink ≤ segment.xmit then 0 - 1 else flush.state
      change := if cause = .fastack then flush.change + 1 else flush.change
      lost := flush.lost || cause = .timeout
      buffer := (flush.buffer.room kcp.mtu (ikcpOverhead + segment.data.length)).put
        (ikcpEncodeSeg segment ++ segment.data) })

/-- The loop over the send buffer. -/
def flushSegments (kcp : Ikcpcb) (wnd resent rtomin : UInt32) :
    List Ikcpseg -> FlushState -> List Ikcpseg × FlushState
  | [], flush => ([], flush)
  | segment :: others, flush =>
      let cause := causeOf kcp resent segment
      let (segment, flush) := if cause = .none then (segment, flush)
        else sendSegment kcp wnd (schedule kcp rtomin segment cause) cause flush
      (segment :: (flushSegments kcp wnd resent rtomin others flush).1,
        (flushSegments kcp wnd resent rtomin others flush).2)

/-- The slow start threshold for a window, at least the least one. -/
def threshold (window : UInt32) : UInt32 :=
  if window / 2 < ikcpThreshMin then ikcpThreshMin else window / 2

/-- Close the congestion window after losses. -/
def shrinkCwnd (kcp : Ikcpcb) (cwnd resent : UInt32) (change : Nat) (lost : Bool) : Ikcpcb :=
  let kcp := if change ≠ 0 then
      { kcp with
        ssthresh := threshold (kcp.sndNxt - kcp.sndUna)
        cwnd := threshold (kcp.sndNxt - kcp.sndUna) + resent
        incr := (threshold (kcp.sndNxt - kcp.sndUna) + resent) * kcp.mss }
    else kcp
  let kcp := if lost then
      { kcp with ssthresh := threshold cwnd, cwnd := 1, incr := kcp.mss }
    else kcp
  if kcp.cwnd < 1 then { kcp with cwnd := 1, incr := kcp.mss } else kcp

/-- The part of `ikcp_flush` before the data: the control block with its
segments numbered, and the buffer behind acknowledges and window commands. -/
def flushControl (kcp : Ikcpcb) : Ikcpcb × FlushBuffer :=
  let (seg, buffer) := flushAcks kcp.mtu kcp.acklist (flushHead kcp) (.new kcp.bufferSize)
  let kcp := probeWindow { kcp with acklist := [] }
  let buffer := flushProbe kcp seg buffer
  let kcp := { kcp with probe := 0 }
  (numberFrom (flushWindow kcp) (ikcpWndUnused kcp) kcp.sndQueue kcp, buffer)

/-- `ikcp_flush`: the new control block, and what has become of the buffer. -/
def ikcpFlush (kcp : Ikcpcb) : Ikcpcb × FlushBuffer :=
  if kcp.updated = 0 then (kcp, .new kcp.bufferSize)
  else
    let cwnd := flushWindow kcp
    let wnd := ikcpWndUnused kcp
    let (kcp, buffer) := flushControl kcp
    let resent := if 0 < kcp.fastresend then kcp.fastresend.toUInt32 else 0xffffffff
    let rtomin := if kcp.nodelay = 0 then (kcp.rxRto >>> 3).toUInt32 else 0
    let (sndBuf, flush) := flushSegments kcp wnd resent rtomin kcp.sndBuf
      ⟨kcp.xmit, kcp.resendCnt, kcp.state, 0, false, buffer⟩
    let kcp := { kcp with
      sndBuf := sndBuf
      xmit := flush.xmit
      resendCnt := flush.resendCnt
      state := flush.state }
    (shrinkCwnd kcp cwnd resent flush.change flush.lost, flush.buffer.handOver)

/-! ## The clock -/

/-- `ikcp_update`. -/
def ikcpUpdate (kcp : Ikcpcb) (current : UInt32) : Ikcpcb × FlushBuffer :=
  let kcp := { kcp with current := current }
  let kcp := if kcp.updated = 0 then { kcp with updated := 1, tsFlush := kcp.current } else kcp
  let slap := itimediff kcp.current kcp.tsFlush
  let lapsed := 10000 ≤ slap ∨ slap < -10000
  let kcp := if lapsed then { kcp with tsFlush := kcp.current } else kcp
  let slap := if lapsed then 0 else slap
  if 0 ≤ slap then
    let tsFlush := kcp.tsFlush + kcp.interval
    ikcpFlush { kcp with
      tsFlush := if 0 ≤ itimediff kcp.current tsFlush then kcp.current + kcp.interval else tsFlush }
  else (kcp, .new kcp.bufferSize)

/-- The loop of `ikcp_check`: the least time until a segment is due, or none
when one is due now. -/
def leastDue (current : UInt32) : List Ikcpseg -> Int -> Option Int
  | [], least => some least
  | seg :: others, least =>
      let diff := itimediff seg.resendts current
      if diff ≤ 0 then none
      else leastDue current others (if diff < least then diff else least)

/-- `ikcp_check`. -/
def ikcpCheck (kcp : Ikcpcb) (current : UInt32) : UInt32 :=
  if kcp.updated = 0 then current
  else
    let since := itimediff current kcp.tsFlush
    let tsFlush := if 10000 ≤ since ∨ since < -10000 then current else kcp.tsFlush
    if 0 ≤ itimediff current tsFlush then current
    else
      match leastDue current kcp.sndBuf 2147483647 with
      | none => current
      | some packet =>
          let flush := itimediff tsFlush current
          let minimal := UInt32.ofInt (if packet < flush then packet else flush)
          current + (if kcp.interval ≤ minimal then kcp.interval else minimal)

/-! ## What a flush changes -/

theorem probeWindow_eq (kcp : Ikcpcb) :
    Exists fun tsProbe => Exists fun probeWait => Exists fun probe =>
      probeWindow kcp = { kcp with tsProbe := tsProbe, probeWait := probeWait, probe := probe } := by
  unfold probeWindow
  split
  · split
    · exact ⟨_, _, _, rfl⟩
    · split
      · exact ⟨_, _, _, rfl⟩
      · exact ⟨_, _, _, rfl⟩
  · exact ⟨_, _, _, rfl⟩

/-- What all segments get that join the send buffer in one flush. -/
def numberStamp (kcp : Ikcpcb) (wnd : UInt32) : Ikcpseg where
  conv := kcp.conv
  cmd := ikcpCmdPush
  frg := 0
  wnd := wnd
  ts := kcp.current
  sn := 0
  una := kcp.rcvNxt
  resendts := kcp.current
  rto := kcp.rxRto.toUInt32
  fastack := 0
  xmit := 0
  data := []

/-- Number segments one after the other. -/
def numberSegs (stamp : Ikcpseg) : UInt32 -> List Ikcpseg -> List Ikcpseg
  | _, [] => []
  | sn, seg :: others =>
      { stamp with sn := sn, frg := seg.frg, data := seg.data } :: numberSegs stamp (sn + 1) others

/-- The control block after segments have moved from the send queue, which
keeps the others, to the send buffer. -/
def Ikcpcb.numbered (kcp : Ikcpcb) (wnd : UInt32) (front back : List Ikcpseg) : Ikcpcb :=
  { kcp with
    sndQueue := back
    sndBuf := kcp.sndBuf ++ numberSegs (numberStamp kcp wnd) kcp.sndNxt front
    nsndQue := kcp.nsndQue - UInt32.ofNat front.length
    nsndBuf := kcp.nsndBuf + UInt32.ofNat front.length
    sndNxt := kcp.sndNxt + UInt32.ofNat front.length }

theorem Ikcpcb.numbered_nil (kcp : Ikcpcb) (wnd : UInt32) :
    kcp.numbered wnd [] kcp.sndQueue = kcp := by
  have none_ : UInt32.ofNat 0 = 0 := rfl
  rw [Ikcpcb.numbered, List.length_nil, none_, UInt32.sub_zero, UInt32.add_zero, UInt32.add_zero,
    numberSegs, List.append_nil]

/-- Segments are numbered one by one while the next number is below the limit. -/
inductive Roomy (next limit : UInt32) : Nat -> Prop
  | zero : Roomy next limit 0
  | succ {count : Nat} : Roomy next limit count ->
      itimediff (next + UInt32.ofNat count) limit < 0 -> Roomy next limit (count + 1)

theorem numberSegs_append (stamp : Ikcpseg) (sn : UInt32) (first second : List Ikcpseg) :
    numberSegs stamp sn (first ++ second) =
      numberSegs stamp sn first ++ numberSegs stamp (sn + UInt32.ofNat first.length) second := by
  induction first generalizing sn with
  | nil =>
      have none_ : UInt32.ofNat 0 = 0 := rfl
      rw [List.nil_append, numberSegs, List.nil_append, List.length_nil, none_, UInt32.add_zero]
  | cons seg others inductionHypothesis =>
      rw [List.cons_append, numberSegs, numberSegs, inductionHypothesis, List.length_cons,
        Serial.succ_add_ofNat, List.cons_append]

theorem numberFrom_spec (cwnd wnd : UInt32) {front back : List Ikcpseg} {kcp : Ikcpcb}
    (split : kcp.sndQueue = front ++ back)
    (roomy : Roomy kcp.sndNxt (kcp.sndUna + cwnd) front.length) :
    Exists fun later => Exists fun rest => kcp.sndQueue = later ++ rest ∧
      Roomy kcp.sndNxt (kcp.sndUna + cwnd) later.length ∧
      numberFrom cwnd wnd back (kcp.numbered wnd front back) = kcp.numbered wnd later rest := by
  induction back generalizing front with
  | nil =>
      rw [numberFrom]
      exact ⟨front, [], split, roomy, rfl⟩
  | cons seg others inductionHypothesis =>
      rw [numberFrom]
      by_cases open_ : itimediff (kcp.numbered wnd front (seg :: others)).sndNxt
          ((kcp.numbered wnd front (seg :: others)).sndUna + cwnd) < 0
      · rw [if_pos open_]
        have one_more : (front ++ [seg]).length = front.length + 1 := List.length_append
        have next : { kcp.numbered wnd front (seg :: others) with
            sndQueue := others
            sndBuf := (kcp.numbered wnd front (seg :: others)).sndBuf ++
              [{ numberStamp kcp wnd with
                sn := kcp.sndNxt + UInt32.ofNat front.length, frg := seg.frg, data := seg.data }]
            nsndQue := (kcp.numbered wnd front (seg :: others)).nsndQue - 1
            nsndBuf := (kcp.numbered wnd front (seg :: others)).nsndBuf + 1
            sndNxt := (kcp.numbered wnd front (seg :: others)).sndNxt + 1 } =
            kcp.numbered wnd (front ++ [seg]) others := by
          have one : UInt32.ofNat (front.length + 1) = UInt32.ofNat front.length + 1 := by
            rw [UInt32.ofNat_add]
            rfl
          have less (number count : UInt32) : number - count - 1 = number - (count + 1) := by grind
          simp only [Ikcpcb.numbered, numberSegs_append, numberSegs, one_more, one, less,
            UInt32.add_assoc, List.append_assoc]
        have step := @inductionHypothesis (front ++ [seg])
          (by rw [split, List.append_assoc, List.singleton_append])
          (by rw [one_more]; exact .succ roomy open_)
        rw [← next] at step
        exact step
      · rw [if_neg open_]
        exact ⟨front, seg :: others, split, roomy, rfl⟩

theorem schedule_lasting (kcp : Ikcpcb) (rtomin : UInt32) (segment : Ikcpseg) (cause : Cause) :
    (schedule kcp rtomin segment cause).lasting = segment.lasting := by
  cases cause <;> rfl

/-- The loop over the send buffer changes no number and no data. -/
theorem flushSegments_lasting (kcp : Ikcpcb) (wnd resent rtomin : UInt32)
    (segments : List Ikcpseg) (flush : FlushState) :
    (flushSegments kcp wnd resent rtomin segments flush).1.map Ikcpseg.lasting =
      segments.map Ikcpseg.lasting := by
  induction segments generalizing flush with
  | nil => rfl
  | cons segment others inductionHypothesis =>
      rw [flushSegments, List.map_cons, List.map_cons]
      by_cases idle : causeOf kcp resent segment = .none
      · simp only [if_pos idle]
        rw [inductionHypothesis]
      · simp only [if_neg idle]
        rw [inductionHypothesis, sendSegment]
        have same := schedule_lasting kcp rtomin segment (causeOf kcp resent segment)
        rw [Ikcpseg.lasting] at same
        rw [Ikcpseg.lasting, same]

theorem shrinkCwnd_eq (kcp : Ikcpcb) (cwnd resent : UInt32) (change : Nat) (lost : Bool) :
    Exists fun ssthresh => Exists fun window => Exists fun incr =>
      shrinkCwnd kcp cwnd resent change lost =
        { kcp with ssthresh := ssthresh, cwnd := window, incr := incr } := by
  unfold shrinkCwnd
  by_cases changed : change ≠ 0
  · simp only [if_pos changed]
    cases lost
    · simp only [Bool.false_eq_true, if_false]
      split <;> exact ⟨_, _, _, rfl⟩
    · simp only [if_true]
      split <;> exact ⟨_, _, _, rfl⟩
  · simp only [if_neg changed]
    cases lost
    · simp only [Bool.false_eq_true, if_false]
      split <;> exact ⟨_, _, _, rfl⟩
    · simp only [if_true]
      split <;> exact ⟨_, _, _, rfl⟩

/-- What a flush changes: the acknowledges are gone, the first segments of the
queue are numbered, and the send buffer has the same segments otherwise. -/
structure Flushed (kcp after : Ikcpcb) (wnd : UInt32) (front back : List Ikcpseg) : Prop where
  split : kcp.sndQueue = front ++ back
  roomy : Roomy kcp.sndNxt (kcp.sndUna + flushWindow kcp) front.length
  lasting : after.sndBuf.map Ikcpseg.lasting =
    (kcp.sndBuf ++ numberSegs (numberStamp kcp wnd) kcp.sndNxt front).map Ikcpseg.lasting
  equal : Exists fun tsProbe => Exists fun probeWait => Exists fun ssthresh => Exists fun cwnd =>
    Exists fun incr => Exists fun xmit => Exists fun resendCnt => Exists fun state =>
      after = { kcp.numbered wnd front back with
        acklist := []
        probe := 0
        tsProbe := tsProbe
        probeWait := probeWait
        sndBuf := after.sndBuf
        ssthresh := ssthresh
        cwnd := cwnd
        incr := incr
        xmit := xmit
        resendCnt := resendCnt
        state := state }

theorem flushControl_spec (kcp : Ikcpcb) :
    Exists fun front => Exists fun back => Exists fun tsProbe => Exists fun probeWait =>
      kcp.sndQueue = front ++ back ∧
      Roomy kcp.sndNxt (kcp.sndUna + flushWindow kcp) front.length ∧
      (flushControl kcp).1 =
        { kcp.numbered (ikcpWndUnused kcp) front back with
          acklist := [], probe := 0, tsProbe := tsProbe, probeWait := probeWait } := by
  rcases probeWindow_eq { kcp with acklist := [] } with ⟨tsProbe, probeWait, probe, probed⟩
  have start := Ikcpcb.numbered_nil { kcp with
    acklist := [], probe := 0, tsProbe := tsProbe, probeWait := probeWait } (ikcpWndUnused kcp)
  rcases @numberFrom_spec (flushWindow kcp) (ikcpWndUnused kcp) [] kcp.sndQueue
    { kcp with acklist := [], probe := 0, tsProbe := tsProbe, probeWait := probeWait }
    rfl .zero with ⟨front, back, split, roomy, equal⟩
  rw [start] at equal
  refine ⟨front, back, tsProbe, probeWait, split, roomy, ?_⟩
  simp only [flushControl, probed]
  exact equal

theorem ikcpFlush_spec {kcp : Ikcpcb} (started : kcp.updated ≠ 0) :
    Exists fun front => Exists fun back =>
      Flushed kcp (ikcpFlush kcp).1 (ikcpWndUnused kcp) front back := by
  rcases flushControl_spec kcp with ⟨front, back, tsProbe, probeWait, split, roomy, numbered⟩
  unfold ikcpFlush
  simp only [if_neg started, numbered]
  generalize looped : flushSegments _ _ _ _ _ _ = result
  have same := congrArg (fun out => out.1.map Ikcpseg.lasting) looped
  simp only [flushSegments_lasting] at same
  refine ⟨front, back, split, roomy, ?_, ?_⟩
  · rcases shrinkCwnd_eq _ _ _ _ _ with ⟨_, _, _, shrunk⟩
    rw [shrunk]
    exact same.symm
  · rcases shrinkCwnd_eq _ _ _ _ _ with ⟨ssthresh, cwnd, incr, shrunk⟩
    rw [shrunk]
    exact ⟨tsProbe, probeWait, ssthresh, cwnd, incr, _, _, _, rfl⟩

/-- An update sets the clock, and then it flushes or waits. -/
theorem ikcpUpdate_cases (kcp : Ikcpcb) (current : UInt32) :
    Exists fun updated => Exists fun tsFlush => updated ≠ 0 ∧
      (ikcpUpdate kcp current =
          ikcpFlush { kcp with current := current, updated := updated, tsFlush := tsFlush } ∨
        ikcpUpdate kcp current =
          ({ kcp with current := current, updated := updated, tsFlush := tsFlush },
            .new kcp.bufferSize)) := by
  have started : Exists fun updated => Exists fun tsFlush => updated ≠ 0 ∧
      (if kcp.updated = 0 then { kcp with current := current, updated := 1, tsFlush := current }
        else { kcp with current := current }) =
        { kcp with current := current, updated := updated, tsFlush := tsFlush } := by
    split
    · exact ⟨1, current, by decide, rfl⟩
    · next running => exact ⟨kcp.updated, kcp.tsFlush, running, rfl⟩
  rcases started with ⟨updated, tsFlush, running, equal⟩
  unfold ikcpUpdate
  simp only [equal]
  by_cases lapsed : 10000 ≤ itimediff current tsFlush ∨ itimediff current tsFlush < -10000
  · simp only [if_pos lapsed, Int.le_refl, if_true]
    exact ⟨updated, _, running, .inl rfl⟩
  · simp only [if_neg lapsed]
    by_cases due : 0 ≤ itimediff current tsFlush
    · simp only [if_pos due]
      exact ⟨updated, _, running, .inl rfl⟩
    · simp only [if_neg due]
      exact ⟨updated, tsFlush, running, .inr rfl⟩

end Kcp
end ServerTech
