import ServerTech.Kcp.Queues

namespace ServerTech
namespace Kcp

/-!
# What a KCP endpoint does with a datagram

`ikcp_input` and the functions it calls.  A datagram is a sequence of segments,
each a head of 24 bytes and its data.  Every segment of whatever kind carries
the peer's window and the number it expects next, so every segment may remove
acknowledged segments from the send buffer.
-/

/-! ## Acknowledgement -/

/-- `ikcp_update_ack`. -/
def ikcpUpdateAck (kcp : Ikcpcb) (rtt : Int32) : Ikcpcb :=
  let kcp := if kcp.rxSrtt = 0 then { kcp with rxSrtt := rtt, rxRttval := rtt / 2 }
    else
      let delta := (rtt - kcp.rxSrtt).toInt
      let delta := if delta < 0 then -delta else delta
      let srtt := (7 * kcp.rxSrtt + rtt) / 8
      { kcp with
        rxRttval := Int32.ofInt (((3 * kcp.rxRttval).toInt + delta).tdiv 4)
        rxSrtt := if srtt < 1 then 1 else srtt }
  let rto := kcp.rxSrtt.toUInt32 + imax kcp.interval (4 * kcp.rxRttval).toUInt32
  { kcp with rxRto := (ibound kcp.rxMinrto.toUInt32 rto ikcpRtoMax).toInt32 }

/-- `ikcp_shrink_buf`. -/
def ikcpShrinkBuf (kcp : Ikcpcb) : Ikcpcb :=
  match kcp.sndBuf with
  | seg :: _ => { kcp with sndUna := seg.sn }
  | [] => { kcp with sndUna := kcp.sndNxt }

/-- The loop of `ikcp_parse_ack`: the segments that stay, and how many of them
have been taken away. -/
def removeAck (sn : UInt32) : List Ikcpseg -> List Ikcpseg × UInt32
  | [] => ([], 0)
  | seg :: others =>
      if sn = seg.sn then (others, 1)
      else if itimediff sn seg.sn < 0 then (seg :: others, 0)
      else (seg :: (removeAck sn others).1, (removeAck sn others).2)

/-- `ikcp_parse_ack`. -/
def ikcpParseAck (kcp : Ikcpcb) (sn : UInt32) : Ikcpcb :=
  if itimediff sn kcp.sndUna < 0 ∨ 0 ≤ itimediff sn kcp.sndNxt then kcp
  else
    { kcp with
      sndBuf := (removeAck sn kcp.sndBuf).1
      nsndBuf := kcp.nsndBuf - (removeAck sn kcp.sndBuf).2 }

/-- The loop of `ikcp_parse_una` over the send buffer, given as a list. -/
def parseUnaFrom (una : UInt32) : List Ikcpseg -> Ikcpcb -> Ikcpcb
  | [], kcp => kcp
  | seg :: others, kcp =>
      if 0 < itimediff una seg.sn then
        parseUnaFrom una others { kcp with sndBuf := others, nsndBuf := kcp.nsndBuf - 1 }
      else kcp

/-- `ikcp_parse_una`. -/
def ikcpParseUna (kcp : Ikcpcb) (una : UInt32) : Ikcpcb :=
  parseUnaFrom una kcp.sndBuf kcp

/-- The loop of `ikcp_parse_fastack`. -/
def countFastack (sn : UInt32) : List Ikcpseg -> List Ikcpseg
  | [] => []
  | seg :: others =>
      if itimediff sn seg.sn < 0 then seg :: others
      else if sn ≠ seg.sn then { seg with fastack := seg.fastack + 1 } :: countFastack sn others
      else seg :: countFastack sn others

/-- `ikcp_parse_fastack`, which does not look at the time. -/
def ikcpParseFastack (kcp : Ikcpcb) (sn : UInt32) : Ikcpcb :=
  if itimediff sn kcp.sndUna < 0 ∨ 0 ≤ itimediff sn kcp.sndNxt then kcp
  else { kcp with sndBuf := countFastack sn kcp.sndBuf }

/-- `ikcp_ack_push`. -/
def ikcpAckPush (kcp : Ikcpcb) (sn ts : UInt32) : Ikcpcb :=
  { kcp with acklist := kcp.acklist ++ [(sn, ts)] }

/-- The control block with fewer segments in the send buffer, the oldest of
which is the first one not acknowledged. -/
def Ikcpcb.keeping (kcp : Ikcpcb) (kept : List Ikcpseg) : Ikcpcb :=
  { kcp with
    sndBuf := kept
    nsndBuf := kcp.nsndBuf - UInt32.ofNat (kcp.sndBuf.length - kept.length)
    sndUna := (kept.map Ikcpseg.sn).headD kcp.sndNxt }

theorem ikcpShrinkBuf_eq (kcp : Ikcpcb) :
    ikcpShrinkBuf kcp = { kcp with sndUna := (kcp.sndBuf.map Ikcpseg.sn).headD kcp.sndNxt } := by
  unfold ikcpShrinkBuf
  cases kcp.sndBuf <;> rfl

theorem ikcpShrinkBuf_eq_keeping (kcp : Ikcpcb) : ikcpShrinkBuf kcp = kcp.keeping kcp.sndBuf := by
  have none_ : UInt32.ofNat 0 = 0 := rfl
  rw [ikcpShrinkBuf_eq, Ikcpcb.keeping, Nat.sub_self, none_, UInt32.sub_zero]

theorem parseUnaFrom_eq (una : UInt32) {unacknowledged : List Ikcpseg} {kcp : Ikcpcb}
    (same : kcp.sndBuf = unacknowledged) :
    Exists fun front => Exists fun back => unacknowledged = front ++ back ∧
      (forall seg, seg ∈ front -> 0 < itimediff una seg.sn) ∧
      parseUnaFrom una unacknowledged kcp =
        { kcp with sndBuf := back, nsndBuf := kcp.nsndBuf - UInt32.ofNat front.length } := by
  have none_ : UInt32.ofNat 0 = 0 := rfl
  induction unacknowledged generalizing kcp with
  | nil =>
      refine ⟨[], [], rfl, fun _ member => (nomatch member), ?_⟩
      rw [parseUnaFrom, List.length_nil, none_, UInt32.sub_zero, ← same]
  | cons seg others inductionHypothesis =>
      rw [parseUnaFrom]
      by_cases acknowledged : 0 < itimediff una seg.sn
      · rw [if_pos acknowledged]
        rcases @inductionHypothesis { kcp with sndBuf := others, nsndBuf := kcp.nsndBuf - 1 } rfl with
          ⟨front, back, split, earlier, equal⟩
        refine ⟨seg :: front, back, by rw [split, List.cons_append], ?_, ?_⟩
        · intro other member
          rcases List.mem_cons.mp member with rfl | deep
          · exact acknowledged
          · exact earlier other deep
        · rw [equal, List.length_cons, ← Serial.pred_sub_ofNat]
      · rw [if_neg acknowledged]
        refine ⟨[], seg :: others, rfl, fun _ member => (nomatch member), ?_⟩
        rw [List.length_nil, none_, UInt32.sub_zero, ← same]

/-- The number the peer expects next takes away segments at the front. -/
theorem shrink_parseUna (kcp : Ikcpcb) (una : UInt32) :
    Exists fun front => Exists fun back => kcp.sndBuf = front ++ back ∧
      (forall seg, seg ∈ front -> 0 < itimediff una seg.sn) ∧
      ikcpShrinkBuf (ikcpParseUna kcp una) = kcp.keeping back := by
  rcases parseUnaFrom_eq una (rfl : kcp.sndBuf = kcp.sndBuf) with ⟨front, back, split, earlier, equal⟩
  refine ⟨front, back, split, earlier, ?_⟩
  rw [ikcpParseUna, equal, ikcpShrinkBuf_eq, Ikcpcb.keeping, split, List.length_append,
    Nat.add_sub_cancel]

theorem removeAck_cases (sn : UInt32) (segments : List Ikcpseg) :
    removeAck sn segments = (segments, 0) ∨
    Exists fun front => Exists fun seg => Exists fun back => segments = front ++ seg :: back ∧
      seg.sn = sn ∧ removeAck sn segments = (front ++ back, 1) := by
  induction segments with
  | nil => exact .inl rfl
  | cons seg others inductionHypothesis =>
      rw [removeAck]
      by_cases same : sn = seg.sn
      · rw [if_pos same]
        exact .inr ⟨[], seg, others, rfl, same.symm, rfl⟩
      · rw [if_neg same]
        by_cases passed : itimediff sn seg.sn < 0
        · rw [if_pos passed]
          exact .inl rfl
        · rw [if_neg passed]
          rcases inductionHypothesis with all | ⟨front, found, back, split, number, rest⟩
          · rw [all]
            exact .inl rfl
          · rw [rest]
            exact .inr ⟨seg :: front, found, back, by rw [split, List.cons_append], number, rfl⟩

/-- An acknowledge takes away at most the segment with its number. -/
theorem shrink_parseAck (kcp : Ikcpcb) (sn : UInt32) :
    ikcpShrinkBuf (ikcpParseAck kcp sn) = kcp.keeping kcp.sndBuf ∨
    Exists fun front => Exists fun seg => Exists fun back => kcp.sndBuf = front ++ seg :: back ∧
      seg.sn = sn ∧ ikcpShrinkBuf (ikcpParseAck kcp sn) = kcp.keeping (front ++ back) := by
  unfold ikcpParseAck
  by_cases outside : itimediff sn kcp.sndUna < 0 ∨ 0 ≤ itimediff sn kcp.sndNxt
  · rw [if_pos outside, ikcpShrinkBuf_eq_keeping]
    exact .inl rfl
  · rw [if_neg outside]
    rcases removeAck_cases sn kcp.sndBuf with all | ⟨front, seg, back, split, number, rest⟩
    · rw [all, UInt32.sub_zero, ikcpShrinkBuf_eq_keeping]
      exact .inl rfl
    · right
      have one : kcp.sndBuf.length - (front ++ back).length = 1 := by
        rw [split, List.length_append, List.length_append, List.length_cons]
        omega
      refine ⟨front, seg, back, split, number, ?_⟩
      rw [rest, ikcpShrinkBuf_eq, Ikcpcb.keeping, one]
      rfl

/-- A segment without what changes from one flush to the next. -/
def Ikcpseg.lasting (seg : Ikcpseg) : Ikcpseg :=
  { seg with wnd := 0, ts := 0, una := 0, resendts := 0, rto := 0, fastack := 0, xmit := 0 }

theorem countFastack_lasting (sn : UInt32) (segments : List Ikcpseg) :
    (countFastack sn segments).map Ikcpseg.lasting = segments.map Ikcpseg.lasting := by
  induction segments with
  | nil => rfl
  | cons seg others inductionHypothesis =>
      rw [countFastack]
      by_cases passed : itimediff sn seg.sn < 0
      · rw [if_pos passed]
      · by_cases other : sn ≠ seg.sn
        · rw [if_neg passed, if_pos other, List.map_cons, List.map_cons, inductionHypothesis]
          rfl
        · rw [if_neg passed, if_neg other, List.map_cons, List.map_cons, inductionHypothesis]

/-! ## Data -/

/-- `ikcp_parse_data`. -/
def ikcpParseData (kcp : Ikcpcb) (newseg : Ikcpseg) : Ikcpcb :=
  if 0 ≤ itimediff newseg.sn (kcp.rcvNxt + kcp.rcvWnd) ∨ itimediff newseg.sn kcp.rcvNxt < 0 then kcp
  else
    moveAvailable
      (match Serial.insert Ikcpseg.sn newseg kcp.rcvBuf with
        | some rcvBuf => { kcp with rcvBuf := rcvBuf, nrcvBuf := kcp.nrcvBuf + 1 }
        | none => kcp)

/-! ## Datagrams -/

/-- `ikcp_decode8u`, `ikcp_decode16u` and `ikcp_decode32u`: the little-endian
word of this many bytes at this position. -/
def ikcpDecode (data : List UInt8) (position width : Nat) : UInt32 :=
  UInt32.ofNat (LittleEndian.decode ((data.drop position).take width))

/-- The segment whose head starts the bytes, with the first `len` bytes behind
the head as its data. -/
def decodeSeg (data : List UInt8) (len : Nat) : Ikcpseg where
  conv := ikcpDecode data 0 4
  cmd := ikcpDecode data 4 1
  frg := ikcpDecode data 5 1
  wnd := ikcpDecode data 6 2
  ts := ikcpDecode data 8 4
  sn := ikcpDecode data 12 4
  una := ikcpDecode data 16 4
  resendts := 0
  rto := 0
  fastack := 0
  xmit := 0
  data := (data.drop ikcpOverhead).take len

/-- The control block and the local variables of `ikcp_input`. -/
structure InputState where
  kcp : Ikcpcb
  flag : Bool
  maxack : UInt32
  deriving DecidableEq, Repr

/-- What `ikcp_input` does with an acknowledge behind its common part. -/
def inputAck (state : InputState) (seg : Ikcpseg) : InputState :=
  let elapsed := itimediff state.kcp.current seg.ts
  let kcp := if 0 ≤ elapsed then ikcpUpdateAck state.kcp (Int32.ofInt elapsed) else state.kcp
  let kcp := ikcpShrinkBuf (ikcpParseAck kcp seg.sn)
  if state.flag = false then ⟨kcp, true, seg.sn⟩
  else if 0 < itimediff seg.sn state.maxack then ⟨kcp, true, seg.sn⟩
  else { state with kcp := kcp }

/-- What `ikcp_input` does with pushed data behind its common part. -/
def inputPush (kcp : Ikcpcb) (seg : Ikcpseg) : Ikcpcb :=
  if itimediff seg.sn (kcp.rcvNxt + kcp.rcvWnd) < 0 then
    let kcp := ikcpAckPush kcp seg.sn seg.ts
    if 0 ≤ itimediff seg.sn kcp.rcvNxt then ikcpParseData kcp seg else kcp
  else kcp

/-- One segment in the loop of `ikcp_input`. -/
def inputSeg (state : InputState) (seg : Ikcpseg) : InputState :=
  let kcp := ikcpShrinkBuf (ikcpParseUna { state.kcp with rmtWnd := seg.wnd } seg.una)
  let state := { state with kcp := kcp }
  if seg.cmd = ikcpCmdAck then inputAck state seg
  else if seg.cmd = ikcpCmdPush then { state with kcp := inputPush state.kcp seg }
  else if seg.cmd = ikcpCmdWask then
    { state with kcp := { kcp with probe := kcp.probe ||| ikcpAskTell } }
  else state

/-- The commands `ikcp_input` knows. -/
def KnownCommand (cmd : UInt32) : Prop :=
  cmd = ikcpCmdPush ∨ cmd = ikcpCmdAck ∨ cmd = ikcpCmdWask ∨ cmd = ikcpCmdWins

instance (cmd : UInt32) : Decidable (KnownCommand cmd) :=
  inferInstanceAs (Decidable (_ ∨ _))

/-- The loop of `ikcp_input` with a number of turns left: what has become of
the state, and the value of the return in the loop, 0 without one. -/
def inputLoop : Nat -> InputState -> List UInt8 -> InputState × Int
  | 0, state, _ => (state, 0)
  | turns + 1, state, data =>
      if data.length < ikcpOverhead then (state, 0)
      else if ikcpDecode data 0 4 ≠ state.kcp.conv then (state, -1)
      else
        let len := ikcpDecode data 20 4
        if (data.drop ikcpOverhead).length < len.toNat ∨ len.toInt32 < 0 then (state, -2)
        else if ¬ KnownCommand (ikcpDecode data 4 1) then (state, -3)
        else
          inputLoop turns (inputSeg state (decodeSeg data len.toNat))
            ((data.drop ikcpOverhead).drop len.toNat)

/-- The congestion window and `incr` one acknowledge further on: by one segment
in slow start, and slower behind the threshold. -/
def growth (kcp : Ikcpcb) : UInt32 × UInt32 :=
  let mss := kcp.mss
  if kcp.cwnd < kcp.ssthresh then (kcp.cwnd + 1, kcp.incr + mss)
  else
    let incr := if kcp.incr < mss then mss else kcp.incr
    let incr := incr + ((mss * mss) / incr + mss / 16)
    if (kcp.cwnd + 1) * mss ≤ incr then ((incr + mss - 1) / (if 0 < mss then mss else 1), incr)
    else (kcp.cwnd, incr)

/-- Open the congestion window after an acknowledge, up to the window of the
peer. -/
def growCwnd (kcp : Ikcpcb) : Ikcpcb :=
  if kcp.cwnd < kcp.rmtWnd then
    if kcp.rmtWnd < (growth kcp).1 then
      { kcp with cwnd := kcp.rmtWnd, incr := kcp.rmtWnd * kcp.mss }
    else { kcp with cwnd := (growth kcp).1, incr := (growth kcp).2 }
  else kcp

/-- `ikcp_input` of a datagram behind the check of its size. -/
def ikcpInput (kcp : Ikcpcb) (data : List UInt8) : Ikcpcb × Int :=
  if data.length < ikcpOverhead then (kcp, -1)
  else
    let (state, code) := inputLoop (data.length / ikcpOverhead + 1) ⟨kcp, false, 0⟩ data
    if code < 0 then (state.kcp, code)
    else
      let after := if state.flag then ikcpParseFastack state.kcp state.maxack else state.kcp
      let after := if 0 < itimediff after.sndUna kcp.sndUna then growCwnd after else after
      (after, 0)

/-! ## What a datagram can change -/

/-- The segments `inputLoop` goes through, and the value it returns.  Neither
depends on anything but the conversation. -/
def scanSegs (conv : UInt32) : Nat -> List UInt8 -> List Ikcpseg × Int
  | 0, _ => ([], 0)
  | turns + 1, data =>
      if data.length < ikcpOverhead then ([], 0)
      else if ikcpDecode data 0 4 ≠ conv then ([], -1)
      else
        let len := ikcpDecode data 20 4
        if (data.drop ikcpOverhead).length < len.toNat ∨ len.toInt32 < 0 then ([], -2)
        else if ¬ KnownCommand (ikcpDecode data 4 1) then ([], -3)
        else
          let later := scanSegs conv turns ((data.drop ikcpOverhead).drop len.toNat)
          (decodeSeg data len.toNat :: later.1, later.2)

/-- The control block after the acknowledge of a segment has been noted. -/
def Ikcpcb.inserted (kcp : Ikcpcb) (rcvBuf : List Ikcpseg) : Ikcpcb :=
  { kcp with rcvBuf := rcvBuf, nrcvBuf := kcp.nrcvBuf + 1 }

/-- The single changes that a segment `seg` can make to a control block. -/
inductive InputStep (seg : Ikcpseg) : Ikcpcb -> Ikcpcb -> Prop
  | measure {kcp : Ikcpcb} (rmtWnd probe : UInt32) (srtt rttval rto : Int32) :
      rmtWnd = kcp.rmtWnd ∨ rmtWnd = seg.wnd ->
      rto = kcp.rxRto ∨
        (Exists fun measured =>
          rto = (ibound kcp.rxMinrto.toUInt32 measured ikcpRtoMax).toInt32) ->
      InputStep seg kcp { kcp with
        rmtWnd := rmtWnd, probe := probe, rxSrtt := srtt, rxRttval := rttval, rxRto := rto }
  | una {kcp : Ikcpcb} {front back : List Ikcpseg} :
      kcp.sndBuf = front ++ back ->
      (forall other, other ∈ front -> 0 < itimediff seg.una other.sn) ->
      InputStep seg kcp (kcp.keeping back)
  | ack {kcp : Ikcpcb} {front back : List Ikcpseg} {other : Ikcpseg} :
      seg.cmd = ikcpCmdAck -> kcp.sndBuf = front ++ other :: back -> other.sn = seg.sn ->
      InputStep seg kcp (kcp.keeping (front ++ back))
  | late {kcp : Ikcpcb} :
      seg.cmd = ikcpCmdPush -> itimediff seg.sn kcp.rcvNxt < 0 ->
      InputStep seg kcp (ikcpAckPush kcp seg.sn seg.ts)
  | repeated {kcp : Ikcpcb} {front back : List Ikcpseg} :
      seg.cmd = ikcpCmdPush -> seg.sn ∈ kcp.rcvBuf.map Ikcpseg.sn ->
      Movable (ikcpAckPush kcp seg.sn seg.ts) front back ->
      InputStep seg kcp ((ikcpAckPush kcp seg.sn seg.ts).moved front back)
  | data {kcp : Ikcpcb} {rcvBuf front back : List Ikcpseg} :
      seg.cmd = ikcpCmdPush -> 0 ≤ itimediff seg.sn kcp.rcvNxt ->
      itimediff seg.sn (kcp.rcvNxt + kcp.rcvWnd) < 0 ->
      Serial.insert Ikcpseg.sn seg kcp.rcvBuf = some rcvBuf ->
      Movable ((ikcpAckPush kcp seg.sn seg.ts).inserted rcvBuf) front back ->
      InputStep seg kcp (((ikcpAckPush kcp seg.sn seg.ts).inserted rcvBuf).moved front back)

/-- Several changes by segments that meet a condition. -/
inductive InputSteps (heard : Ikcpseg -> Prop) : Ikcpcb -> Ikcpcb -> Prop
  | refl (kcp : Ikcpcb) : InputSteps heard kcp kcp
  | snoc {kcp middle after : Ikcpcb} {seg : Ikcpseg} :
      InputSteps heard kcp middle -> heard seg -> InputStep seg middle after ->
      InputSteps heard kcp after

theorem InputSteps.trans {heard : Ikcpseg -> Prop} {kcp middle after : Ikcpcb}
    (first : InputSteps heard kcp middle) (second : InputSteps heard middle after) :
    InputSteps heard kcp after := by
  induction second with
  | refl => exact first
  | snoc _ known step inductionHypothesis => exact .snoc inductionHypothesis known step

theorem InputStep.conv {seg : Ikcpseg} {kcp after : Ikcpcb} (step : InputStep seg kcp after) :
    after.conv = kcp.conv := by
  cases step <;> rfl

theorem InputSteps.conv {heard : Ikcpseg -> Prop} {kcp after : Ikcpcb}
    (steps : InputSteps heard kcp after) : after.conv = kcp.conv := by
  induction steps with
  | refl => rfl
  | snoc _ _ step inductionHypothesis => rw [step.conv, inductionHypothesis]

/-- One change. -/
theorem InputSteps.single {heard : Ikcpseg -> Prop} {kcp after : Ikcpcb} {seg : Ikcpseg}
    (known : heard seg) (step : InputStep seg kcp after) : InputSteps heard kcp after :=
  .snoc (.refl kcp) known step

theorem ikcpUpdateAck_step (seg : Ikcpseg) (kcp : Ikcpcb) (rtt : Int32) :
    InputStep seg kcp (ikcpUpdateAck kcp rtt) := by
  unfold ikcpUpdateAck
  by_cases first : kcp.rxSrtt = 0
  · simp only [if_pos first]
    exact .measure kcp.rmtWnd kcp.probe _ _ _ (.inl rfl) (.inr ⟨_, rfl⟩)
  · simp only [if_neg first]
    exact .measure kcp.rmtWnd kcp.probe _ _ _ (.inl rfl) (.inr ⟨_, rfl⟩)

theorem shrink_parseUna_step (seg : Ikcpseg) (kcp : Ikcpcb) :
    InputStep seg kcp (ikcpShrinkBuf (ikcpParseUna kcp seg.una)) := by
  rcases shrink_parseUna kcp seg.una with ⟨front, back, split, earlier, equal⟩
  rw [equal]
  exact .una split earlier

theorem shrink_parseAck_step {seg : Ikcpseg} (acknowledge : seg.cmd = ikcpCmdAck) (kcp : Ikcpcb) :
    InputStep seg kcp (ikcpShrinkBuf (ikcpParseAck kcp seg.sn)) := by
  rcases shrink_parseAck kcp seg.sn with equal | ⟨front, other, back, split, number, equal⟩
  · rw [equal]
    exact .una (List.nil_append _).symm fun _ member => (nomatch member)
  · rw [equal]
    exact .ack acknowledge split number

/-- The control block after the round trip of an acknowledge has been measured. -/
def Ikcpcb.measured (kcp : Ikcpcb) (ts : UInt32) : Ikcpcb :=
  if 0 ≤ itimediff kcp.current ts then ikcpUpdateAck kcp (Int32.ofInt (itimediff kcp.current ts))
  else kcp

theorem measured_steps (kcp : Ikcpcb) (seg : Ikcpseg) :
    InputSteps (· = seg) kcp (kcp.measured seg.ts) := by
  rw [Ikcpcb.measured]
  split
  · exact .single rfl (ikcpUpdateAck_step seg _ _)
  · exact .refl kcp

theorem inputAck_kcp (state : InputState) (seg : Ikcpseg) :
    (inputAck state seg).kcp =
      ikcpShrinkBuf (ikcpParseAck (state.kcp.measured seg.ts) seg.sn) := by
  simp only [inputAck, Ikcpcb.measured]
  split <;> split <;> (try split) <;> rfl

theorem inputAck_steps (state : InputState) {seg : Ikcpseg} (acknowledge : seg.cmd = ikcpCmdAck) :
    InputSteps (· = seg) state.kcp (inputAck state seg).kcp := by
  rw [inputAck_kcp]
  exact .snoc (measured_steps state.kcp seg) rfl (shrink_parseAck_step acknowledge _)

theorem inputPush_steps {kcp : Ikcpcb} {seg : Ikcpseg} (push : seg.cmd = ikcpCmdPush) :
    InputSteps (· = seg) kcp (inputPush kcp seg) := by
  unfold inputPush
  by_cases inside : itimediff seg.sn (kcp.rcvNxt + kcp.rcvWnd) < 0
  · rw [if_pos inside]
    by_cases late : itimediff seg.sn kcp.rcvNxt < 0
    · have passed : ¬ 0 ≤ itimediff seg.sn (ikcpAckPush kcp seg.sn seg.ts).rcvNxt :=
        Int.not_le.mpr late
      simp only [if_neg passed]
      exact .single rfl (.late push late)
    · have expected := Int.not_lt.mp late
      have accepted : ¬ (0 ≤ itimediff seg.sn (kcp.rcvNxt + kcp.rcvWnd) ∨
          itimediff seg.sn kcp.rcvNxt < 0) := by omega
      have unfolded : ikcpParseData (ikcpAckPush kcp seg.sn seg.ts) seg =
          moveAvailable (match Serial.insert Ikcpseg.sn seg kcp.rcvBuf with
            | some rcvBuf => (ikcpAckPush kcp seg.sn seg.ts).inserted rcvBuf
            | none => ikcpAckPush kcp seg.sn seg.ts) := by
        rw [ikcpParseData, ikcpAckPush, if_neg accepted]
        rfl
      have reached : 0 ≤ itimediff seg.sn (ikcpAckPush kcp seg.sn seg.ts).rcvNxt := expected
      simp only [if_pos reached, unfolded]
      cases placed : Serial.insert Ikcpseg.sn seg kcp.rcvBuf with
      | none =>
          rcases moveAvailable_spec (ikcpAckPush kcp seg.sn seg.ts) with ⟨front, back, movable, equal⟩
          simp only [equal]
          exact .single rfl (.repeated push (Serial.insert_none placed) movable)
      | some rcvBuf =>
          rcases moveAvailable_spec ((ikcpAckPush kcp seg.sn seg.ts).inserted rcvBuf) with
            ⟨front, back, movable, equal⟩
          simp only [equal]
          exact .single rfl (.data push expected inside placed movable)
  · rw [if_neg inside]
    exact .refl kcp

/-- What every segment does first. -/
def opened (kcp : Ikcpcb) (seg : Ikcpseg) : Ikcpcb :=
  ikcpShrinkBuf (ikcpParseUna { kcp with rmtWnd := seg.wnd } seg.una)

theorem opened_steps (kcp : Ikcpcb) (seg : Ikcpseg) :
    InputSteps (· = seg) kcp (opened kcp seg) :=
  .snoc (.single rfl (.measure seg.wnd kcp.probe kcp.rxSrtt kcp.rxRttval kcp.rxRto (.inr rfl)
    (.inl rfl))) rfl (shrink_parseUna_step seg _)

/-- A segment of a datagram makes only changes of its own. -/
theorem inputSeg_steps (state : InputState) (seg : Ikcpseg) :
    InputSteps (· = seg) state.kcp (inputSeg state seg).kcp := by
  have opened := opened_steps state.kcp seg
  rw [Kcp.opened] at opened
  unfold inputSeg
  by_cases acknowledge : seg.cmd = ikcpCmdAck
  · simp only [if_pos acknowledge]
    exact opened.trans (inputAck_steps ⟨_, state.flag, state.maxack⟩ acknowledge)
  · by_cases push : seg.cmd = ikcpCmdPush
    · simp only [if_neg acknowledge, if_pos push]
      exact opened.trans (inputPush_steps push)
    · by_cases asked : seg.cmd = ikcpCmdWask
      · simp only [if_neg acknowledge, if_neg push, if_pos asked]
        exact opened.snoc rfl (.measure _ _ _ _ _ (.inl rfl) (.inl rfl))
      · simp only [if_neg acknowledge, if_neg push, if_neg asked]
        exact opened

theorem InputSteps.mono {heard known : Ikcpseg -> Prop} {kcp after : Ikcpcb}
    (steps : InputSteps heard kcp after) (more : forall seg, heard seg -> known seg) :
    InputSteps known kcp after := by
  induction steps with
  | refl => exact .refl _
  | snoc _ met step inductionHypothesis => exact .snoc inductionHypothesis (more _ met) step

/-- The loop handles the segments of the datagram in order. -/
theorem inputLoop_eq (turns : Nat) (state : InputState) (data : List UInt8) :
    inputLoop turns state data =
      ((scanSegs state.kcp.conv turns data).1.foldl inputSeg state,
        (scanSegs state.kcp.conv turns data).2) := by
  induction turns generalizing state data with
  | zero => rfl
  | succ turns inductionHypothesis =>
      rw [inputLoop, scanSegs]
      by_cases short : data.length < ikcpOverhead
      · simp only [if_pos short, List.foldl_nil]
      · by_cases foreign : ikcpDecode data 0 4 ≠ state.kcp.conv
        · simp only [if_neg short, if_pos foreign, List.foldl_nil]
        · by_cases cut : (data.drop ikcpOverhead).length < (ikcpDecode data 20 4).toNat ∨
              (ikcpDecode data 20 4).toInt32 < 0
          · simp only [if_neg short, if_neg foreign, if_pos cut, List.foldl_nil]
          · by_cases known : KnownCommand (ikcpDecode data 4 1)
            · simp only [if_neg short, if_neg foreign, if_neg cut, not_true_eq_false, known,
                if_false]
              rw [inductionHypothesis, (inputSeg_steps state _).conv, List.foldl_cons]
            · simp only [if_neg short, if_neg foreign, if_neg cut, if_pos known, List.foldl_nil]

theorem foldl_inputSeg_steps (segs : List Ikcpseg) (state : InputState) :
    InputSteps (· ∈ segs) state.kcp (segs.foldl inputSeg state).kcp := by
  induction segs generalizing state with
  | nil => exact .refl _
  | cons seg others inductionHypothesis =>
      rw [List.foldl_cons]
      apply InputSteps.trans
      · apply (inputSeg_steps state seg).mono
        intro other same
        rw [same]
        exact List.mem_cons_self
      · exact (inductionHypothesis (inputSeg state seg)).mono fun _ member =>
          List.mem_cons_of_mem _ member

theorem growCwnd_eq (kcp : Ikcpcb) :
    Exists fun cwnd => Exists fun incr => growCwnd kcp = { kcp with cwnd := cwnd, incr := incr } := by
  unfold growCwnd
  split
  · split <;> exact ⟨_, _, rfl⟩
  · exact ⟨kcp.cwnd, kcp.incr, rfl⟩

theorem ikcpParseFastack_eq (kcp : Ikcpcb) (sn : UInt32) :
    Exists fun sndBuf => sndBuf.map Ikcpseg.lasting = kcp.sndBuf.map Ikcpseg.lasting ∧
      ikcpParseFastack kcp sn = { kcp with sndBuf := sndBuf } := by
  unfold ikcpParseFastack
  split
  · exact ⟨kcp.sndBuf, rfl, rfl⟩
  · exact ⟨_, countFastack_lasting sn kcp.sndBuf, rfl⟩

/-- The segments a datagram brings to an endpoint of this conversation. -/
def heardSegs (conv : UInt32) (data : List UInt8) : List Ikcpseg :=
  (scanSegs conv (data.length / ikcpOverhead + 1) data).1

/-- The control block after the segments of a datagram. -/
def hearing (kcp : Ikcpcb) (data : List UInt8) : Ikcpcb :=
  ((heardSegs kcp.conv data).foldl inputSeg ⟨kcp, false, 0⟩).kcp

/-- At the end of a datagram only what the send buffer counts and the congestion
window change. -/
theorem ikcpInput_hearing (kcp : Ikcpcb) (data : List UInt8) :
    Exists fun sndBuf => Exists fun cwnd => Exists fun incr =>
      sndBuf.map Ikcpseg.lasting = (hearing kcp data).sndBuf.map Ikcpseg.lasting ∧
      (ikcpInput kcp data).1 =
        { hearing kcp data with sndBuf := sndBuf, cwnd := cwnd, incr := incr } := by
  unfold ikcpInput
  by_cases short : data.length < ikcpOverhead
  · have nothing : hearing kcp data = kcp := by
      rw [hearing, heardSegs, scanSegs, if_pos short, List.foldl_nil]
    rw [if_pos short, nothing]
    exact ⟨kcp.sndBuf, kcp.cwnd, kcp.incr, rfl, rfl⟩
  · rw [if_neg short, inputLoop_eq]
    by_cases broken : (scanSegs kcp.conv (data.length / ikcpOverhead + 1) data).2 < 0
    · simp only [if_pos broken]
      exact ⟨_, _, _, rfl, rfl⟩
    · simp only [if_neg broken]
      have counted : Exists fun sndBuf =>
          sndBuf.map Ikcpseg.lasting = (hearing kcp data).sndBuf.map Ikcpseg.lasting ∧
          (if ((heardSegs kcp.conv data).foldl inputSeg ⟨kcp, false, 0⟩).flag then
            ikcpParseFastack (hearing kcp data)
              ((heardSegs kcp.conv data).foldl inputSeg ⟨kcp, false, 0⟩).maxack
          else hearing kcp data) = { hearing kcp data with sndBuf := sndBuf } := by
        split
        · exact ikcpParseFastack_eq _ _
        · exact ⟨_, rfl, rfl⟩
      rcases counted with ⟨sndBuf, same, equal⟩
      rw [hearing, heardSegs] at equal
      rw [equal]
      split
      · rcases growCwnd_eq { hearing kcp data with sndBuf := sndBuf } with ⟨cwnd, incr, grown⟩
        rw [hearing, heardSegs] at grown
        rw [grown]
        exact ⟨_, _, _, same, rfl⟩
      · exact ⟨_, _, _, same, rfl⟩

/-- A datagram changes a control block by its segments, and at the end only
what the send buffer counts and the congestion window. -/
theorem ikcpInput_steps (kcp : Ikcpcb) (data : List UInt8) :
    Exists fun middle => Exists fun sndBuf => Exists fun cwnd => Exists fun incr =>
      InputSteps (· ∈ heardSegs kcp.conv data) kcp middle ∧
      sndBuf.map Ikcpseg.lasting = middle.sndBuf.map Ikcpseg.lasting ∧
      (ikcpInput kcp data).1 = { middle with sndBuf := sndBuf, cwnd := cwnd, incr := incr } := by
  rcases ikcpInput_hearing kcp data with ⟨sndBuf, cwnd, incr, same, equal⟩
  exact ⟨_, sndBuf, cwnd, incr, foldl_inputSeg_steps (heardSegs kcp.conv data) ⟨kcp, false, 0⟩, same,
    equal⟩

/-- The window field has two bytes. -/
theorem scanSegs_wnd {conv : UInt32} {turns : Nat} {data : List UInt8} {seg : Ikcpseg}
    (member : seg ∈ (scanSegs conv turns data).1) : seg.wnd.toNat ≤ 65535 := by
  induction turns generalizing data with
  | zero => cases member
  | succ turns inductionHypothesis =>
      rw [scanSegs] at member
      split at member
      · cases member
      · split at member
        · cases member
        · simp only at member
          split at member
          · cases member
          · split at member
            · cases member
            · rcases List.mem_cons.mp member with rfl | later
              · have small := LittleEndian.decode_lt ((data.drop 6).take 2)
                have two : ((data.drop 6).take 2).length ≤ 2 := List.length_take_le _ _
                have power := Nat.pow_le_pow_right (by decide : 0 < 256) two
                have value : (decodeSeg data (ikcpDecode data 20 4).toNat).wnd =
                    UInt32.ofNat (LittleEndian.decode ((data.drop 6).take 2)) := rfl
                rw [value, UInt32.toNat_ofNat']
                omega
              · exact inductionHypothesis later

end Kcp
end ServerTech
