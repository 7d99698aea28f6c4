import ServerTech.Kcp.ControlBlock

namespace ServerTech
namespace Kcp

/-!
# Sending to and receiving from the queues

`ikcp_send`, `ikcp_recv` and `ikcp_peeksize`.  Sending cuts a buffer into
segments of at most the segment size, in streaming mode behind the last segment
of the queue as far as it has room.  Receiving merges the fragments of the
first message, and moves segments that have become available from the receive
buffer to the receive queue.
-/

/-! ## Sending -/

/-- Fill up the last segment of the queue, and how many bytes went into it. -/
def extendLast (kcp : Ikcpcb) (buffer : List UInt8) : Ikcpcb × Nat :=
  match kcp.sndQueue.getLast? with
  | none => (kcp, 0)
  | some old =>
      if old.data.length < kcp.mss.toNat then
        let capacity := kcp.mss.toNat - old.data.length
        let extend := if buffer.length < capacity then buffer.length else capacity
        let seg := Ikcpseg.new 0 (old.data ++ buffer.take extend)
        ({ kcp with sndQueue := kcp.sndQueue.dropLast ++ [seg] }, extend)
      else (kcp, 0)

/-- The segments of the remaining turns of the fragment loop. -/
def fragments (kcp : Ikcpcb) : Nat -> List UInt8 -> List Ikcpseg
  | 0, _ => []
  | later + 1, buffer =>
      let size := if kcp.mss.toNat < buffer.length then kcp.mss.toNat else buffer.length
      Ikcpseg.new (if kcp.stream = 0 then UInt32.ofNat later else 0) (buffer.take size) ::
        fragments kcp later (buffer.drop size)

/-- The number of segments for this many bytes. -/
def fragmentCount (kcp : Ikcpcb) (len : Nat) : Nat :=
  if len ≤ kcp.mss.toNat then 1 else (len + kcp.mss.toNat - 1) / kcp.mss.toNat

/-- The bytes of a list of segments. -/
def segmentBytes (segments : List Ikcpseg) : List UInt8 :=
  segments.flatMap Ikcpseg.data

/-- The part of `ikcp_send` behind the streaming one, with this many bytes
already taken. -/
def sendFragments (kcp : Ikcpcb) (sent : Nat) (buffer : List UInt8) : Ikcpcb × Int :=
  let count := fragmentCount kcp buffer.length
  if ikcpWndRcv.toNat ≤ count then
    if kcp.stream ≠ 0 ∧ 0 < sent then (kcp, sent) else (kcp, -2)
  else
    let segments := fragments kcp (if count = 0 then 1 else count) buffer
    ({ kcp with
        sndQueue := kcp.sndQueue ++ segments
        nsndQue := kcp.nsndQue + UInt32.ofNat segments.length },
      sent + (segmentBytes segments).length)

/-- `ikcp_send`. -/
def ikcpSend (kcp : Ikcpcb) (buffer : List UInt8) : Ikcpcb × Int :=
  if kcp.stream = 0 then sendFragments kcp 0 buffer
  else
    let (kcp, sent) := extendLast kcp buffer
    if (buffer.drop sent).length ≤ 0 then (kcp, sent)
    else sendFragments kcp sent (buffer.drop sent)

@[simp] theorem segmentBytes_nil : segmentBytes [] = [] :=
  rfl

@[simp] theorem segmentBytes_cons (seg : Ikcpseg) (others : List Ikcpseg) :
    segmentBytes (seg :: others) = seg.data ++ segmentBytes others :=
  rfl

@[simp] theorem segmentBytes_append (first second : List Ikcpseg) :
    segmentBytes (first ++ second) = segmentBytes first ++ segmentBytes second := by
  rw [segmentBytes, List.flatMap_append]
  rfl

@[simp] theorem length_fragments (kcp : Ikcpcb) (count : Nat) (buffer : List UInt8) :
    (fragments kcp count buffer).length = count := by
  induction count generalizing buffer with
  | zero => rfl
  | succ later inductionHypothesis => exact congrArg (· + 1) (inductionHypothesis _)

theorem fragments_length_le {kcp : Ikcpcb} {count : Nat} {buffer : List UInt8} {seg : Ikcpseg}
    (member : seg ∈ fragments kcp count buffer) : seg.data.length ≤ kcp.mss.toNat := by
  induction count generalizing buffer with
  | zero => cases member
  | succ later inductionHypothesis =>
      rcases List.mem_cons.mp member with rfl | deep
      · rw [Ikcpseg.new, List.length_take]
        split <;> omega
      · exact inductionHypothesis deep

/-- Enough fragments hold all bytes. -/
theorem segmentBytes_fragments {kcp : Ikcpcb} {count : Nat} {buffer : List UInt8}
    (enough : buffer.length ≤ count * kcp.mss.toNat) :
    segmentBytes (fragments kcp count buffer) = buffer := by
  induction count generalizing buffer with
  | zero =>
      rw [Nat.zero_mul] at enough
      rw [List.eq_nil_of_length_eq_zero (Nat.le_zero.mp enough)]
      rfl
  | succ later inductionHypothesis =>
      rw [fragments, segmentBytes_cons]
      have less : (buffer.drop (if kcp.mss.toNat < buffer.length then kcp.mss.toNat
          else buffer.length)).length ≤ later * kcp.mss.toNat := by
        rw [Nat.succ_mul] at enough
        rw [List.length_drop]
        split <;> omega
      rw [inductionHypothesis less]
      exact List.take_append_drop _ _

theorem le_fragmentCount_mul (kcp : Ikcpcb) (len : Nat) (room : 0 < kcp.mss.toNat) :
    len ≤ fragmentCount kcp len * kcp.mss.toNat := by
  rw [fragmentCount]
  split
  · omega
  · have cut := Nat.div_add_mod (len + kcp.mss.toNat - 1) kcp.mss.toNat
    have small := Nat.mod_lt (len + kcp.mss.toNat - 1) room
    rw [Nat.mul_comm] at cut
    omega

theorem fragmentCount_pos (kcp : Ikcpcb) (len : Nat) (room : 0 < kcp.mss.toNat) :
    0 < fragmentCount kcp len := by
  rw [fragmentCount]
  split
  · exact Nat.one_pos
  · exact Nat.div_pos (by omega) room

/-- What filling up the last segment may do: nothing, or some bytes go behind
its data in streaming mode. -/
inductive Extended (kcp : Ikcpcb) : List UInt8 -> Ikcpcb -> Prop
  | same : Extended kcp [] kcp
  | filled {front : List Ikcpseg} {old : Ikcpseg} {bytes : List UInt8} :
      kcp.stream ≠ 0 -> kcp.sndQueue = front ++ [old] ->
      old.data.length + bytes.length ≤ kcp.mss.toNat ->
      Extended kcp bytes
        { kcp with sndQueue := front ++ [Ikcpseg.new 0 (old.data ++ bytes)] }

theorem extendLast_spec (kcp : Ikcpcb) (buffer : List UInt8) (streaming : kcp.stream ≠ 0) :
    Extended kcp (buffer.take (extendLast kcp buffer).2) (extendLast kcp buffer).1 ∧
      (extendLast kcp buffer).2 ≤ buffer.length := by
  unfold extendLast
  rcases List.eq_nil_or_concat kcp.sndQueue with empty | ⟨front, old, whole⟩
  · rw [empty, List.getLast?_nil]
    exact ⟨.same, Nat.zero_le _⟩
  · rw [List.concat_eq_append] at whole
    rw [whole, List.getLast?_concat]
    by_cases short : old.data.length < kcp.mss.toNat
    · simp only [if_pos short, List.dropLast_concat]
      refine ⟨.filled streaming whole ?_, ?_⟩
      · rw [List.length_take]
        split <;> omega
      · split <;> omega
    · simp only [if_neg short]
      exact ⟨.same, Nat.zero_le _⟩

/-- With bytes to send, filling up by nothing changes nothing. -/
theorem extendLast_none {kcp : Ikcpcb} {buffer : List UInt8} (some_ : 0 < buffer.length)
    (none_ : (extendLast kcp buffer).2 = 0) : (extendLast kcp buffer).1 = kcp := by
  unfold extendLast at none_ ⊢
  cases last : kcp.sndQueue.getLast? with
  | none => rfl
  | some old =>
      rw [last] at none_
      by_cases short : old.data.length < kcp.mss.toNat
      · simp only [if_pos short] at none_
        split at none_ <;> omega
      · simp only [if_neg short]

/-- Fragments do not depend on the queue. -/
theorem Extended.fragments {kcp filled : Ikcpcb} {bytes : List UInt8}
    (extended : Extended kcp bytes filled) (count : Nat) (buffer : List UInt8) :
    fragments filled count buffer = fragments kcp count buffer := by
  cases extended with
  | same => rfl
  | filled _ _ _ =>
      induction count generalizing buffer with
      | zero => rfl
      | succ later inductionHypothesis =>
          rw [Kcp.fragments, Kcp.fragments, inductionHypothesis]

theorem Extended.mss {kcp filled : Ikcpcb} {bytes : List UInt8}
    (extended : Extended kcp bytes filled) : filled.mss = kcp.mss := by
  cases extended <;> rfl

theorem Extended.stream {kcp filled : Ikcpcb} {bytes : List UInt8}
    (extended : Extended kcp bytes filled) : filled.stream = kcp.stream := by
  cases extended <;> rfl

/-- Filling up keeps the segments of the queue, the last one apart, which gets no
longer than a segment can be. -/
theorem Extended.mem {kcp filled : Ikcpcb} {bytes : List UInt8}
    (extended : Extended kcp bytes filled) {seg : Ikcpseg} (member : seg ∈ filled.sndQueue) :
    seg ∈ kcp.sndQueue ∨ seg.frg = 0 ∧ seg.data.length ≤ kcp.mss.toNat := by
  cases extended with
  | same => exact .inl member
  | filled _ split fits =>
      rw [split]
      rcases List.mem_append.mp member with before | last
      · exact .inl (List.mem_append_left _ before)
      · rw [List.mem_singleton.mp last, Ikcpseg.new, List.length_append]
        exact .inr ⟨rfl, fits⟩

/-- The bytes go behind those of the queue. -/
theorem Extended.bytes {kcp filled : Ikcpcb} {bytes : List UInt8}
    (extended : Extended kcp bytes filled) :
    segmentBytes filled.sndQueue = segmentBytes kcp.sndQueue ++ bytes := by
  cases extended with
  | same => rw [List.append_nil]
  | filled _ split _ =>
      rw [split, segmentBytes_append, segmentBytes_append, segmentBytes_cons, segmentBytes_cons,
        segmentBytes_nil, Ikcpseg.new, List.append_nil, List.append_nil, List.append_assoc]

/-- What a call to send may do: it refuses and changes nothing, or it takes the
front of the buffer.  Some bytes fill up the last segment of the queue, and the
others make new segments. -/
structure Taking (kcp : Ikcpcb) (buffer bytes : List UInt8) (filled : Ikcpcb)
    (segments : List Ikcpseg) : Prop where
  front : bytes ++ segmentBytes segments <+: buffer
  extended : Extended kcp bytes filled
  fragments : segments = [] ∨ segments = fragments kcp segments.length (segmentBytes segments)
  whole : kcp.stream = 0 -> segments ≠ [] ∧ segmentBytes segments = buffer
  few : segments.length < 128

/-- A new segment is a fragment of the bytes that have no place elsewhere. -/
theorem Taking.cut {kcp filled : Ikcpcb} {buffer bytes : List UInt8} {segments : List Ikcpseg}
    (taking : Taking kcp buffer bytes filled segments) {seg : Ikcpseg} (member : seg ∈ segments) :
    seg ∈ Kcp.fragments kcp segments.length (segmentBytes segments) := by
  rcases taking.fragments with none_ | cut
  · rw [none_] at member
    cases member
  · rw [← cut]
    exact member

/-- The control block after new segments have joined the queue. -/
def Ikcpcb.queued (kcp : Ikcpcb) (segments : List Ikcpseg) : Ikcpcb :=
  { kcp with
    sndQueue := kcp.sndQueue ++ segments
    nsndQue := kcp.nsndQue + UInt32.ofNat segments.length }

theorem Ikcpcb.queued_nil (kcp : Ikcpcb) : kcp.queued [] = kcp := by
  have none_ : UInt32.ofNat 0 = 0 := rfl
  rw [Ikcpcb.queued, List.length_nil, none_, UInt32.add_zero, List.append_nil]

/-- What the part behind the streaming one does. -/
theorem sendFragments_cases {kcp : Ikcpcb} (sent : Nat) (buffer : List UInt8)
    (room : 0 < kcp.mss.toNat) :
    (sendFragments kcp sent buffer = (kcp, (sent : Int)) ∧ kcp.stream ≠ 0 ∧ 0 < sent) ∨
    (sendFragments kcp sent buffer = (kcp, -2) ∧ (kcp.stream = 0 ∨ sent = 0)) ∨
    Exists fun count => 0 < count ∧ count < 128 ∧
      segmentBytes (fragments kcp count buffer) = buffer ∧
      sendFragments kcp sent buffer =
        (kcp.queued (fragments kcp count buffer), ((sent + buffer.length : Nat) : Int)) := by
  have limit : ikcpWndRcv.toNat = 128 := rfl
  have positive := fragmentCount_pos kcp buffer.length room
  unfold sendFragments
  by_cases many : ikcpWndRcv.toNat ≤ fragmentCount kcp buffer.length
  · by_cases some_ : kcp.stream ≠ 0 ∧ 0 < sent
    · simp only [if_pos many, if_pos some_]
      exact .inl ⟨trivial, some_⟩
    · simp only [if_pos many, if_neg some_]
      refine .inr (.inl ⟨trivial, ?_⟩)
      by_cases whole : kcp.stream = 0
      · exact .inl whole
      · exact .inr (Nat.eq_zero_of_not_pos fun more => some_ ⟨whole, more⟩)
  · have all := segmentBytes_fragments (le_fragmentCount_mul kcp buffer.length room)
    simp only [if_neg many, if_neg (Nat.ne_of_gt positive)]
    refine .inr (.inr ⟨fragmentCount kcp buffer.length, positive, by omega, all, ?_⟩)
    rw [all]
    rfl

theorem ikcpSend_spec (kcp : Ikcpcb) (buffer : List UInt8) (room : 0 < kcp.mss.toNat) :
    ikcpSend kcp buffer = (kcp, -2) ∨
      Exists fun bytes => Exists fun filled => Exists fun segments =>
        Taking kcp buffer bytes filled segments ∧
          ikcpSend kcp buffer =
            (filled.queued segments, ((bytes ++ segmentBytes segments).length : Int)) := by
  unfold ikcpSend
  by_cases whole : kcp.stream = 0
  · rw [if_pos whole]
    rcases sendFragments_cases 0 buffer room with ⟨_, streaming, _⟩ | ⟨refused, _⟩ |
      ⟨count, some_, few, all, taken⟩
    · exact absurd whole streaming
    · exact .inl refused
    · refine .inr ⟨[], kcp, fragments kcp count buffer, ⟨?_, .same, ?_, ?_, ?_⟩, ?_⟩
      · exact ⟨[], by rw [List.nil_append, List.append_nil, all]⟩
      · rw [length_fragments, all]
        exact .inr rfl
      · intro _
        refine ⟨fun empty => ?_, all⟩
        have none_ := congrArg List.length empty
        rw [length_fragments, List.length_nil] at none_
        omega
      · rw [length_fragments]
        exact few
      · rw [taken, List.nil_append, all, Nat.zero_add]
  · rw [if_neg whole]
    rcases extendLast_spec kcp buffer whole with ⟨extended, fits⟩
    have room_ : 0 < (extendLast kcp buffer).1.mss.toNat := by
      rw [extended.mss]
      exact room
    have none_ : forall streaming, kcp.stream = 0 -> streaming := fun _ zero => absurd zero whole
    by_cases done : (buffer.drop (extendLast kcp buffer).2).length ≤ 0
    · simp only [if_pos done]
      refine .inr ⟨_, _, [], ⟨?_, extended, .inl rfl, none_ _, by decide⟩, ?_⟩
      · rw [segmentBytes_nil, List.append_nil]
        exact List.take_prefix _ _
      · rw [segmentBytes_nil, List.append_nil, Ikcpcb.queued_nil, List.length_take,
          Nat.min_eq_left fits]
    · simp only [if_neg done]
      rcases sendFragments_cases (extendLast kcp buffer).2
          (buffer.drop (extendLast kcp buffer).2) room_ with
        ⟨taken, _, _⟩ | ⟨refused, impossible | nothing⟩ | ⟨count, some_, few, all, taken⟩
      · refine .inr ⟨_, _, [], ⟨?_, extended, .inl rfl, none_ _, by decide⟩, ?_⟩
        · rw [segmentBytes_nil, List.append_nil]
          exact List.take_prefix _ _
        · rw [segmentBytes_nil, List.append_nil, Ikcpcb.queued_nil, List.length_take,
            Nat.min_eq_left fits]
          exact taken
      · rw [extended.stream] at impossible
        exact absurd impossible whole
      · rw [List.length_drop, nothing] at done
        rw [refused, extendLast_none (by omega) nothing]
        exact .inl rfl
      · refine .inr ⟨_, _, fragments (extendLast kcp buffer).1 count
          (buffer.drop (extendLast kcp buffer).2), ⟨?_, extended, ?_, none_ _, ?_⟩, ?_⟩
        · exact ⟨[], by rw [all, List.take_append_drop, List.append_nil]⟩
        · rw [length_fragments, all, extended.fragments]
          exact .inr rfl
        · rw [length_fragments]
          exact few
        · rw [taken, all, List.take_append_drop, List.length_drop, Nat.add_sub_cancel' fits]

/-! ## Receiving -/

/-- The segments up to the first one that ends a message, and the others. -/
def mergeFragment : List Ikcpseg -> List Ikcpseg × List Ikcpseg
  | [] => ([], [])
  | seg :: others =>
      if seg.frg = 0 then ([seg], others)
      else (seg :: (mergeFragment others).1, (mergeFragment others).2)

/-- `ikcp_peeksize`. -/
def ikcpPeeksize (kcp : Ikcpcb) : Int :=
  match kcp.rcvQueue with
  | [] => -1
  | seg :: _ =>
      if seg.frg = 0 then seg.data.length
      else if kcp.nrcvQue < seg.frg + 1 then -1
      else (segmentBytes (mergeFragment kcp.rcvQueue).1).length

/-- Move the available segments of the buffer, given as a list, to the queue. -/
def moveAvailableFrom : List Ikcpseg -> Ikcpcb -> Ikcpcb
  | [], kcp => kcp
  | seg :: others, kcp =>
      if seg.sn = kcp.rcvNxt ∧ kcp.nrcvQue < kcp.rcvWnd then
        moveAvailableFrom others { kcp with
          rcvBuf := others
          nrcvBuf := kcp.nrcvBuf - 1
          rcvQueue := kcp.rcvQueue ++ [seg]
          nrcvQue := kcp.nrcvQue + 1
          rcvNxt := kcp.rcvNxt + 1 }
      else kcp

/-- Move the available segments from the buffer to the queue. -/
def moveAvailable (kcp : Ikcpcb) : Ikcpcb :=
  moveAvailableFrom kcp.rcvBuf kcp

/-- The control block after segments have moved from the buffer, which keeps
the others, to the queue. -/
def Ikcpcb.moved (kcp : Ikcpcb) (front back : List Ikcpseg) : Ikcpcb :=
  { kcp with
    rcvBuf := back
    nrcvBuf := kcp.nrcvBuf - UInt32.ofNat front.length
    rcvQueue := kcp.rcvQueue ++ front
    nrcvQue := kcp.nrcvQue + UInt32.ofNat front.length
    rcvNxt := kcp.rcvNxt + UInt32.ofNat front.length }

theorem Ikcpcb.moved_nil (kcp : Ikcpcb) : kcp.moved [] kcp.rcvBuf = kcp := by
  have none_ : UInt32.ofNat 0 = 0 := rfl
  rw [Ikcpcb.moved, List.length_nil, none_, UInt32.sub_zero, UInt32.add_zero, UInt32.add_zero,
    List.append_nil]

/-- Moving one segment and then others. -/
theorem Ikcpcb.moved_moved (kcp : Ikcpcb) (seg : Ikcpseg) (front middle back : List Ikcpseg) :
    (kcp.moved [seg] middle).moved front back = kcp.moved (seg :: front) back := by
  have one : UInt32.ofNat 1 = 1 := rfl
  simp only [Ikcpcb.moved, List.length_cons, List.length_nil, Nat.zero_add, one,
    Serial.succ_add_ofNat, Serial.pred_sub_ofNat, List.append_assoc, List.singleton_append]

/-- What a loop that moves available segments may move: the front of the
buffer, as far as it has the next numbers and the queue has room. -/
structure Movable (kcp : Ikcpcb) (front back : List Ikcpseg) : Prop where
  split : kcp.rcvBuf = front ++ back
  numbers : front.map Ikcpseg.sn = Serial.consecutive kcp.rcvNxt front.length
  room : front = [] ∨ kcp.nrcvQue.toNat + front.length ≤ kcp.rcvWnd.toNat
  stuck : forall seg others, back = seg :: others ->
    seg.sn = kcp.rcvNxt + UInt32.ofNat front.length ->
    kcp.rcvWnd ≤ kcp.nrcvQue + UInt32.ofNat front.length

theorem moveAvailableFrom_spec {available : List Ikcpseg} {kcp : Ikcpcb}
    (same : kcp.rcvBuf = available) :
    Exists fun front => Exists fun back => Movable kcp front back ∧
      moveAvailableFrom available kcp = kcp.moved front back := by
  have none_ : UInt32.ofNat 0 = 0 := rfl
  have one : UInt32.ofNat 1 = 1 := rfl
  induction available generalizing kcp with
  | nil =>
      refine ⟨[], [], ⟨same, rfl, .inl rfl, fun _ _ empty => (nomatch empty)⟩, ?_⟩
      have stay := kcp.moved_nil
      rw [same] at stay
      rw [moveAvailableFrom, stay]
  | cons seg others inductionHypothesis =>
      rw [moveAvailableFrom]
      by_cases movable : seg.sn = kcp.rcvNxt ∧ kcp.nrcvQue < kcp.rcvWnd
      · rw [if_pos movable]
        have step : moveAvailableFrom others (kcp.moved [seg] others) =
            moveAvailableFrom others { kcp with
              rcvBuf := others
              nrcvBuf := kcp.nrcvBuf - 1
              rcvQueue := kcp.rcvQueue ++ [seg]
              nrcvQue := kcp.nrcvQue + 1
              rcvNxt := kcp.rcvNxt + 1 } := rfl
        rcases @inductionHypothesis (kcp.moved [seg] others) rfl with
          ⟨front, back, inner, moved⟩
        have count (start : UInt32) : start + UInt32.ofNat 1 + UInt32.ofNat front.length =
            start + UInt32.ofNat (front.length + 1) := Serial.succ_add_ofNat start front.length
        refine ⟨seg :: front, back, ⟨?_, ?_, ?_, ?_⟩, ?_⟩
        · rw [same, List.cons_append, ← inner.split]
          rfl
        · rw [List.map_cons, List.length_cons, Serial.consecutive, movable.1, inner.numbers]
          rfl
        · right
          have less := UInt32.lt_iff_toNat_lt.mp movable.2
          have small := kcp.rcvWnd.toNat_lt
          have next : (kcp.nrcvQue + 1).toNat = kcp.nrcvQue.toNat + 1 := by
            rw [UInt32.toNat_add, UInt32.toNat_one]
            omega
          rw [List.length_cons]
          rcases inner.room with rfl | fits
          · rw [List.length_nil]
            omega
          · have fits_ : (kcp.nrcvQue + 1).toNat + front.length ≤ kcp.rcvWnd.toNat := fits
            omega
        · intro next later equal number
          rw [List.length_cons, ← count] at number ⊢
          exact inner.stuck next later equal number
        · rw [← step, moved, kcp.moved_moved]
      · rw [if_neg movable]
        refine ⟨[], seg :: others, ⟨same, rfl, .inl rfl, ?_⟩, ?_⟩
        · intro first later equal number
          cases equal
          rw [List.length_nil, none_, UInt32.add_zero] at number ⊢
          exact UInt32.not_lt.mp fun less => movable ⟨number, less⟩
        · have stay := kcp.moved_nil
          rw [same] at stay
          exact stay.symm

/-- What moving available segments does. -/
theorem moveAvailable_spec (kcp : Ikcpcb) :
    Exists fun front => Exists fun back => Movable kcp front back ∧
      moveAvailable kcp = kcp.moved front back :=
  moveAvailableFrom_spec rfl

/-- The control block after its first message has been taken. -/
def Ikcpcb.withoutMessage (kcp : Ikcpcb) : Ikcpcb :=
  { kcp with
    rcvQueue := (mergeFragment kcp.rcvQueue).2
    nrcvQue := kcp.nrcvQue - UInt32.ofNat (mergeFragment kcp.rcvQueue).1.length }

/-- `ikcp_recv` with room for `len` bytes, and the bytes it copies.  With a
negative `len` it only looks. -/
def ikcpRecv (kcp : Ikcpcb) (len : Int32) : Ikcpcb × Int × List UInt8 :=
  if kcp.rcvQueue = [] then (kcp, -1, [])
  else if ikcpPeeksize kcp < 0 then (kcp, -2, [])
  else if (if len < 0 then -len else len).toInt < ikcpPeeksize kcp then (kcp, -3, [])
  else
    let recover := kcp.rcvWnd ≤ kcp.nrcvQue
    let message := segmentBytes (mergeFragment kcp.rcvQueue).1
    let kcp := moveAvailable (if len < 0 then kcp else kcp.withoutMessage)
    ({ kcp with
        probe := if kcp.nrcvQue < kcp.rcvWnd ∧ recover then kcp.probe ||| ikcpAskTell else kcp.probe },
      message.length, message)

/-- A message and the rest are the whole queue. -/
theorem mergeFragment_append (segments : List Ikcpseg) :
    (mergeFragment segments).1 ++ (mergeFragment segments).2 = segments := by
  induction segments with
  | nil => rfl
  | cons seg others inductionHypothesis =>
      rw [mergeFragment]
      by_cases last : seg.frg = 0
      · rw [if_pos last]
        rfl
      · rw [if_neg last, List.cons_append, inductionHypothesis]

/-- The assertion of `ikcp_recv`: the size it has looked up is the size of the
message it merges. -/
theorem ikcpPeeksize_eq {kcp : Ikcpcb} (known : 0 ≤ ikcpPeeksize kcp) :
    ikcpPeeksize kcp = (segmentBytes (mergeFragment kcp.rcvQueue).1).length := by
  unfold ikcpPeeksize at known ⊢
  cases queue : kcp.rcvQueue with
  | nil =>
      simp only [queue] at known
      omega
  | cons seg others =>
      by_cases last : seg.frg = 0
      · simp only [mergeFragment, if_pos last, segmentBytes_cons, segmentBytes_nil, List.append_nil]
      · simp only [queue, if_neg last] at known ⊢
        by_cases few : kcp.nrcvQue < seg.frg + 1
        · rw [if_pos few] at known
          omega
        · rw [if_neg few]

/-- What a call to receive does: it changes nothing, or it delivers the first
message and moves available segments. -/
theorem ikcpRecv_cases (kcp : Ikcpcb) (len : Int32) :
    (Exists fun code => code < 0 ∧ ikcpRecv kcp len = (kcp, code, [])) ∨
    Exists fun probe => kcp.rcvQueue ≠ [] ∧ 0 ≤ ikcpPeeksize kcp ∧
      ikcpRecv kcp len =
        ({ moveAvailable (if len < 0 then kcp else kcp.withoutMessage) with probe := probe },
          ((segmentBytes (mergeFragment kcp.rcvQueue).1).length : Int),
          segmentBytes (mergeFragment kcp.rcvQueue).1) := by
  unfold ikcpRecv
  by_cases empty : kcp.rcvQueue = []
  · rw [if_pos empty]
    exact .inl ⟨-1, by decide, rfl⟩
  · by_cases unknown : ikcpPeeksize kcp < 0
    · rw [if_neg empty, if_pos unknown]
      exact .inl ⟨-2, by decide, rfl⟩
    · by_cases small : (if len < 0 then -len else len).toInt < ikcpPeeksize kcp
      · rw [if_neg empty, if_neg unknown, if_pos small]
        exact .inl ⟨-3, by decide, rfl⟩
      · rw [if_neg empty, if_neg unknown, if_neg small]
        exact .inr ⟨_, empty, Int.not_lt.mp unknown, rfl⟩

end Kcp
end ServerTech
