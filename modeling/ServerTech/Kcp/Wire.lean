import ServerTech.Kcp.Flush

namespace ServerTech
namespace Kcp

/-!
# The wire format of KCP

A segment on the wire is a head of 24 bytes and its data.  The head stores the
command and the fragment number in one byte each and the window in two, so the
peer hears their low bytes.  A datagram is some segments one after another, and
the length in each head says where the next one starts.  Reading a datagram
back gives exactly the segments that were written into it.
-/

/-- A segment on the wire. -/
def wireSeg (seg : Ikcpseg) : List UInt8 :=
  ikcpEncodeSeg seg ++ seg.data

/-- What the peer hears of a segment. -/
def Ikcpseg.heard (seg : Ikcpseg) : Ikcpseg :=
  { seg with
    cmd := seg.cmd % 256
    frg := seg.frg % 256
    wnd := seg.wnd % 65536
    resendts := 0
    rto := 0
    fastack := 0
    xmit := 0 }

@[simp] theorem length_ikcpEncodeSeg (seg : Ikcpseg) : (ikcpEncodeSeg seg).length = 24 := by
  simp only [ikcpEncodeSeg, List.length_append, LittleEndian.length_encode]

@[simp] theorem length_wireSeg (seg : Ikcpseg) : (wireSeg seg).length = 24 + seg.data.length := by
  rw [wireSeg, List.length_append, length_ikcpEncodeSeg]

/-- The first word is read back as its low bytes. -/
theorem ikcpDecode_first (width value : Nat) (later : List UInt8) :
    ikcpDecode (LittleEndian.encode width value ++ later) 0 width =
      UInt32.ofNat (value % 256 ^ width) := by
  rw [ikcpDecode, List.drop_zero, List.take_left' (LittleEndian.length_encode width value),
    LittleEndian.decode_encode]

/-- A word further on is read behind the first one. -/
theorem ikcpDecode_later (first value : Nat) (later : List UInt8) (position width : Nat) :
    ikcpDecode (LittleEndian.encode first value ++ later) (first + position) width =
      ikcpDecode later position width := by
  rw [ikcpDecode, ← List.drop_drop, List.drop_left' (LittleEndian.length_encode first value),
    ikcpDecode]

theorem ofNat_mod_word (word : UInt32) : UInt32.ofNat (word.toNat % 256 ^ 4) = word := by
  have small : word.toNat < 256 ^ 4 := word.toNat_lt
  rw [Nat.mod_eq_of_lt small, UInt32.ofNat_toNat]

theorem ofNat_mod_low (word low : UInt32) {width : Nat} (same : low.toNat = 256 ^ width) :
    UInt32.ofNat (word.toNat % 256 ^ width) = word % low := by
  apply UInt32.toNat_inj.mp
  have small := word.toNat_lt
  have less := Nat.mod_le word.toNat (256 ^ width)
  rw [UInt32.toNat_mod, UInt32.toNat_ofNat', same]
  exact Nat.mod_eq_of_lt (by omega)

/-- The words of a head in front of any bytes. -/
theorem decode_head (seg : Ikcpseg) (later : List UInt8) :
    ikcpDecode (wireSeg seg ++ later) 0 4 = seg.conv ∧
    ikcpDecode (wireSeg seg ++ later) 4 1 = seg.cmd % 256 ∧
    ikcpDecode (wireSeg seg ++ later) 5 1 = seg.frg % 256 ∧
    ikcpDecode (wireSeg seg ++ later) 6 2 = seg.wnd % 65536 ∧
    ikcpDecode (wireSeg seg ++ later) 8 4 = seg.ts ∧
    ikcpDecode (wireSeg seg ++ later) 12 4 = seg.sn ∧
    ikcpDecode (wireSeg seg ++ later) 16 4 = seg.una ∧
    ikcpDecode (wireSeg seg ++ later) 20 4 = UInt32.ofNat seg.data.length := by
  have layout : wireSeg seg ++ later =
      LittleEndian.encode 4 seg.conv.toNat ++ (LittleEndian.encode 1 seg.cmd.toNat ++
        (LittleEndian.encode 1 seg.frg.toNat ++ (LittleEndian.encode 2 seg.wnd.toNat ++
          (LittleEndian.encode 4 seg.ts.toNat ++ (LittleEndian.encode 4 seg.sn.toNat ++
            (LittleEndian.encode 4 seg.una.toNat ++ (LittleEndian.encode 4 seg.data.length ++
              (seg.data ++ later)))))))) := by
    simp only [wireSeg, ikcpEncodeSeg, List.append_assoc]
  rw [layout]
  refine ⟨?_, ?_, ?_, ?_, ?_, ?_, ?_, ?_⟩
  · rw [ikcpDecode_first, ofNat_mod_word]
  · have place : 4 = 4 + 0 := rfl
    rw [place, ikcpDecode_later, ikcpDecode_first, ofNat_mod_low _ 256 rfl]
  · have place : 5 = 4 + (1 + 0) := rfl
    rw [place, ikcpDecode_later, ikcpDecode_later, ikcpDecode_first, ofNat_mod_low _ 256 rfl]
  · have place : 6 = 4 + (1 + (1 + 0)) := rfl
    rw [place]
    simp only [ikcpDecode_later]
    rw [ikcpDecode_first, ofNat_mod_low _ 65536 rfl]
  · have place : 8 = 4 + (1 + (1 + (2 + 0))) := rfl
    rw [place]
    simp only [ikcpDecode_later]
    rw [ikcpDecode_first, ofNat_mod_word]
  · have place : 12 = 4 + (1 + (1 + (2 + (4 + 0)))) := rfl
    rw [place]
    simp only [ikcpDecode_later]
    rw [ikcpDecode_first, ofNat_mod_word]
  · have place : 16 = 4 + (1 + (1 + (2 + (4 + (4 + 0))))) := rfl
    rw [place]
    simp only [ikcpDecode_later]
    rw [ikcpDecode_first, ofNat_mod_word]
  · have place : 20 = 4 + (1 + (1 + (2 + (4 + (4 + (4 + 0)))))) := rfl
    rw [place]
    simp only [ikcpDecode_later]
    rw [ikcpDecode_first]
    apply UInt32.toNat_inj.mp
    rw [UInt32.toNat_ofNat', UInt32.toNat_ofNat']
    exact Nat.mod_mod _ (2 ^ 32)

theorem decodeSeg_wireSeg (seg : Ikcpseg) (later : List UInt8) :
    decodeSeg (wireSeg seg ++ later) seg.data.length = seg.heard := by
  rcases decode_head seg later with ⟨conv, cmd, frg, wnd, ts, sn, una, _⟩
  have data : ((wireSeg seg ++ later).drop ikcpOverhead).take seg.data.length = seg.data := by
    rw [wireSeg, List.append_assoc, ikcpOverhead, List.drop_left' (length_ikcpEncodeSeg seg),
      List.take_left' rfl]
  rw [decodeSeg, conv, cmd, frg, wnd, ts, sn, una, data, Ikcpseg.heard]

/-- A length below the sign bit is not negative. -/
theorem toInt32_nonneg {word : UInt32} (short : word.toNat < 2147483648) :
    ¬ word.toInt32 < 0 := by
  intro negative
  have below : word.toInt32.toInt < 0 := Int32.lt_iff_toInt_lt.mp negative
  rw [Serial.toInt_toInt32 short] at below
  omega

/-- A segment that `ikcp_input` understands when it reads it from the wire. -/
structure Wirable (conv : UInt32) (seg : Ikcpseg) : Prop where
  conv : seg.conv = conv
  known : KnownCommand (seg.cmd % 256)
  short : seg.data.length < 2147483648

theorem scanSegs_wire {conv : UInt32} {segs : List Ikcpseg} {turns : Nat}
    (wirable : forall seg, seg ∈ segs -> Wirable conv seg) (enough : segs.length ≤ turns) :
    scanSegs conv turns (segs.flatMap wireSeg) = (segs.map Ikcpseg.heard, 0) := by
  induction segs generalizing turns with
  | nil =>
      cases turns with
      | zero => rfl
      | succ turns => rfl
  | cons seg others inductionHypothesis =>
      cases turns with
      | zero => exact absurd enough (Nat.not_succ_le_zero _)
      | succ turns =>
          have met := wirable seg List.mem_cons_self
          rcases decode_head seg (others.flatMap wireSeg) with ⟨conv_, cmd, _, _, _, _, _, len⟩
          have size : (UInt32.ofNat seg.data.length).toNat = seg.data.length := by
            have short := met.short
            rw [UInt32.toNat_ofNat']
            omega
          have long_ : ¬ (wireSeg seg ++ others.flatMap wireSeg).length < ikcpOverhead := by
            rw [List.length_append, length_wireSeg, ikcpOverhead]
            omega
          have behind : (wireSeg seg ++ others.flatMap wireSeg).drop ikcpOverhead =
              seg.data ++ others.flatMap wireSeg := by
            rw [wireSeg, List.append_assoc, ikcpOverhead, List.drop_left' (length_ikcpEncodeSeg seg)]
          have room : ¬ ((seg.data ++ others.flatMap wireSeg).length < seg.data.length ∨
              (UInt32.ofNat seg.data.length).toInt32 < 0) := by
            rintro (cut | negative)
            · rw [List.length_append] at cut
              omega
            · exact toInt32_nonneg (by rw [size]; exact met.short) negative
          have later := inductionHypothesis
            (fun other member => wirable other (List.mem_cons_of_mem seg member))
            (Nat.le_of_succ_le_succ enough)
          rw [List.flatMap_cons, scanSegs]
          simp only [if_neg long_, conv_, met.conv, len, cmd, met.known, size, behind, if_neg room,
            ne_eq, not_true_eq_false, if_false, List.drop_left, later, decodeSeg_wireSeg,
            List.map_cons]

theorem length_flatMap_wireSeg (segs : List Ikcpseg) :
    24 * segs.length ≤ (segs.flatMap wireSeg).length := by
  induction segs with
  | nil => exact Nat.zero_le _
  | cons seg others inductionHypothesis =>
      rw [List.flatMap_cons, List.length_append, length_wireSeg, List.length_cons]
      omega

/-- What is read from a datagram is what was written into it. -/
theorem heardSegs_wire {conv : UInt32} {segs : List Ikcpseg}
    (wirable : forall seg, seg ∈ segs -> Wirable conv seg) :
    heardSegs conv (segs.flatMap wireSeg) = segs.map Ikcpseg.heard := by
  have size := length_flatMap_wireSeg segs
  have enough : segs.length ≤ (segs.flatMap wireSeg).length / ikcpOverhead + 1 := by
    rw [ikcpOverhead]
    omega
  rw [heardSegs, scanSegs_wire wirable enough]

/-- A datagram of at least one segment is accepted. -/
theorem ikcpInput_wire {kcp : Ikcpcb} {segs : List Ikcpseg} (some_ : segs ≠ [])
    (wirable : forall seg, seg ∈ segs -> Wirable kcp.conv seg) :
    (ikcpInput kcp (segs.flatMap wireSeg)).2 = 0 := by
  have size := length_flatMap_wireSeg segs
  have one := List.length_pos_iff.mpr some_
  have enough : segs.length ≤ (segs.flatMap wireSeg).length / ikcpOverhead + 1 := by
    rw [ikcpOverhead]
    omega
  have long_ : ¬ (segs.flatMap wireSeg).length < ikcpOverhead := by
    rw [ikcpOverhead]
    omega
  have good : ¬ (0 : Int) < 0 := by decide
  rw [ikcpInput, if_neg long_, inputLoop_eq, scanSegs_wire wirable enough]
  simp only [if_neg good]

/-- `ikcp_getconv`. -/
def ikcpGetconv (data : List UInt8) : UInt32 :=
  ikcpDecode data 0 4

/-- The conversation of a datagram can be read without its endpoint. -/
theorem ikcpGetconv_wire {conv : UInt32} {segs : List Ikcpseg} (some_ : segs ≠ [])
    (wirable : forall seg, seg ∈ segs -> Wirable conv seg) :
    ikcpGetconv (segs.flatMap wireSeg) = conv := by
  cases segs with
  | nil => exact absurd rfl some_
  | cons seg others =>
      rw [List.flatMap_cons, ikcpGetconv, (decode_head seg _).1]
      exact (wirable seg List.mem_cons_self).conv

/-! ## The output buffer of a flush -/

/-- The bytes are some segments that meet a condition. -/
def Holds (condition : Ikcpseg -> Prop) (bytes : List UInt8) : Prop :=
  Exists fun segs : List Ikcpseg =>
    (forall seg, seg ∈ segs -> condition seg) ∧ bytes = segs.flatMap wireSeg

/-- A flush buffer that holds and has handed over only segments that meet a
condition, in pieces that are not longer than the limit.  If the limit is below
half of an `int` and the block is not smaller, there was no fault. -/
structure Carries (condition : Ikcpseg -> Prop) (limit size : Nat) (buffer : FlushBuffer) : Prop where
  pending : Holds condition buffer.pending
  output : forall datagram, datagram ∈ buffer.output ->
    datagram ≠ [] ∧ datagram.length ≤ limit ∧ Holds condition datagram
  fits : buffer.pending.length ≤ limit
  block : buffer.size = size
  sound : limit < 1073741824 -> limit ≤ size -> buffer.fault = false

theorem Carries.empty (condition : Ikcpseg -> Prop) (limit : Nat) (size : UInt32) :
    Carries condition limit size.toNat (.new size) where
  pending := ⟨[], fun _ member => (nomatch member), rfl⟩
  output := fun _ member => (nomatch member)
  fits := Nat.zero_le _
  block := rfl
  sound := fun _ _ => rfl

theorem Carries.handOver {condition : Ikcpseg -> Prop} {limit size : Nat} {buffer : FlushBuffer}
    (carries : Carries condition limit size buffer) : Carries condition limit size buffer.handOver where
  pending := ⟨[], fun _ member => (nomatch member), rfl⟩
  output := by
    intro datagram member
    rw [FlushBuffer.handOver] at member
    by_cases nothing : buffer.pending.length = 0
    · rw [if_pos nothing] at member
      exact carries.output datagram member
    · rw [if_neg nothing] at member
      rcases List.mem_append.mp member with old | new
      · exact carries.output datagram old
      · rw [List.mem_singleton.mp new]
        exact ⟨fun empty => nothing (congrArg List.length empty), carries.fits, carries.pending⟩
  fits := Nat.zero_le _
  block := carries.block
  sound := carries.sound

/-- Room is made for a piece within the limit. -/
theorem Carries.room {condition : Ikcpseg -> Prop} {limit size need : Nat} {buffer : FlushBuffer}
    {mtu : UInt32} (carries : Carries condition limit size buffer) (unit : mtu.toNat ≤ limit)
    (small : need ≤ limit) :
    Carries condition limit size (buffer.room mtu need) ∧
      (buffer.room mtu need).pending.length + need ≤ limit := by
  have fits := carries.fits
  have summed : Carries condition limit size { buffer with
      fault := buffer.fault || decide (2147483647 < buffer.pending.length + need) } := by
    refine ⟨carries.pending, carries.output, fits, carries.block, ?_⟩
    intro half block
    have short : ¬ 2147483647 < buffer.pending.length + need := by omega
    simp only [carries.sound half block, short, decide_false, Bool.or_self]
  rw [FlushBuffer.room]
  by_cases full : mtu.toNat < buffer.pending.length + need
  · simp only [if_pos full]
    refine ⟨summed.handOver, ?_⟩
    rw [FlushBuffer.handOver, List.length_nil, Nat.zero_add]
    exact small
  · simp only [if_neg full]
    exact ⟨summed, by omega⟩

/-- Room is made and a segment is written. -/
theorem Carries.write {condition : Ikcpseg -> Prop} {limit size : Nat} {buffer : FlushBuffer}
    {mtu : UInt32} {seg : Ikcpseg} (carries : Carries condition limit size buffer)
    (unit : mtu.toNat ≤ limit) (small : 24 + seg.data.length ≤ limit) (met : condition seg) :
    Carries condition limit size ((buffer.room mtu (24 + seg.data.length)).put (wireSeg seg)) := by
  rcases carries.room unit small with ⟨roomy, fits⟩
  generalize buffer.room mtu (24 + seg.data.length) = ready at roomy fits ⊢
  refine ⟨?_, roomy.output, ?_, roomy.block, ?_⟩
  · rcases roomy.pending with ⟨segs, each, equal⟩
    refine ⟨segs ++ [seg], ?_, ?_⟩
    · intro other member
      rcases List.mem_append.mp member with old | new
      · exact each other old
      · rw [List.mem_singleton.mp new]
        exact met
    · rw [FlushBuffer.put, equal, List.flatMap_append, List.flatMap_singleton]
  · rw [FlushBuffer.put, List.length_append, length_wireSeg]
    exact fits
  · intro half block
    have inside : ¬ ready.size < ready.pending.length + (wireSeg seg).length := by
      rw [length_wireSeg, roomy.block]
      exact Nat.not_lt.mpr (Nat.le_trans fits block)
    have before : ready.fault = false := roomy.sound half block
    simp only [FlushBuffer.put, before, inside, decide_false, Bool.or_self]

theorem Carries.putHead {condition : Ikcpseg -> Prop} {limit size : Nat} {buffer : FlushBuffer}
    {mtu : UInt32} {seg : Ikcpseg} (carries : Carries condition limit size buffer)
    (unit : mtu.toNat ≤ limit) (small : 24 ≤ limit) (bare : seg.data = []) (met : condition seg) :
    Carries condition limit size (Kcp.putHead mtu seg buffer) := by
  have size : 24 + seg.data.length = 24 := by rw [bare, List.length_nil]
  have head : wireSeg seg = ikcpEncodeSeg seg := by rw [wireSeg, bare, List.append_nil]
  have written := carries.write unit (by rw [size]; exact small) met
  rw [size, head] at written
  exact written

/-- What a flush may write: heads of its own with the next number it expects,
acknowledges only of numbers that were noted, and segments of its send buffer
with the next number it expects. -/
inductive Written (kcp : Ikcpcb) (sndBuf : List Ikcpseg) (seg : Ikcpseg) : Prop
  | ack : seg.conv = kcp.conv -> seg.una = kcp.rcvNxt -> seg.data = [] -> seg.cmd = ikcpCmdAck ->
      seg.sn ∈ kcp.acklist.map Prod.fst -> Written kcp sndBuf seg
  | window : seg.conv = kcp.conv -> seg.una = kcp.rcvNxt -> seg.data = [] ->
      seg.cmd = ikcpCmdWask ∨ seg.cmd = ikcpCmdWins -> Written kcp sndBuf seg
  | data : seg.una = kcp.rcvNxt -> seg.lasting ∈ sndBuf.map Ikcpseg.lasting -> Written kcp sndBuf seg

theorem flushAcks_carries {condition : Ikcpseg -> Prop} {limit size : Nat} {mtu : UInt32}
    (unit : mtu.toNat ≤ limit) (small : 24 ≤ limit) {acks : List (UInt32 × UInt32)}
    {head : Ikcpseg} {buffer : FlushBuffer} (bare : head.data = [])
    (each : forall sn ts, (sn, ts) ∈ acks -> condition { head with sn := sn, ts := ts })
    (carries : Carries condition limit size buffer) :
    Carries condition limit size (flushAcks mtu acks head buffer).2 ∧
      Exists fun sn => Exists fun ts =>
        (flushAcks mtu acks head buffer).1 = { head with sn := sn, ts := ts } := by
  induction acks generalizing head buffer with
  | nil => exact ⟨carries, head.sn, head.ts, rfl⟩
  | cons ack others inductionHypothesis =>
      rcases ack with ⟨sn, ts⟩
      rw [flushAcks]
      exact @inductionHypothesis { head with sn := sn, ts := ts } _ bare
        (fun later time member => each later time (List.mem_cons_of_mem _ member))
        (carries.putHead unit small bare (each sn ts List.mem_cons_self))

theorem flushProbe_carries {condition : Ikcpseg -> Prop} {limit size : Nat} {kcp : Ikcpcb}
    (unit : kcp.mtu.toNat ≤ limit) (small : 24 ≤ limit) {head : Ikcpseg} {buffer : FlushBuffer}
    (bare : head.data = []) (ask : condition { head with cmd := ikcpCmdWask })
    (tell : condition { head with cmd := ikcpCmdWins }) (carries : Carries condition limit size buffer) :
    Carries condition limit size (flushProbe kcp head buffer) := by
  have asked : Carries condition limit size (if kcp.probe &&& ikcpAskSend ≠ 0 then
      putHead kcp.mtu { head with cmd := ikcpCmdWask } buffer else buffer) := by
    split
    · exact carries.putHead unit small bare ask
    · exact carries
  rw [flushProbe]
  split
  · exact asked.putHead unit small bare tell
  · exact asked

theorem flushSegments_carries {condition : Ikcpseg -> Prop} {limit size : Nat} {kcp : Ikcpcb}
    {wnd resent rtomin : UInt32} (unit : kcp.mtu.toNat ≤ limit) {segments : List Ikcpseg}
    {flush : FlushState}
    (small : forall segment, segment ∈ segments -> 24 + segment.data.length ≤ limit)
    (each : forall segment, segment.una = kcp.rcvNxt ->
      segment.lasting ∈ segments.map Ikcpseg.lasting -> condition segment)
    (carries : Carries condition limit size flush.buffer) :
    Carries condition limit size (flushSegments kcp wnd resent rtomin segments flush).2.buffer := by
  induction segments generalizing flush with
  | nil => exact carries
  | cons segment others inductionHypothesis =>
      have smaller : forall other, other ∈ others -> 24 + other.data.length ≤ limit :=
        fun other member => small other (List.mem_cons_of_mem _ member)
      have fewer : forall other, other.una = kcp.rcvNxt ->
          other.lasting ∈ others.map Ikcpseg.lasting -> condition other :=
        fun other una member => each other una (List.mem_cons_of_mem _ member)
      rw [flushSegments]
      by_cases idle : causeOf kcp resent segment = .none
      · simp only [if_pos idle]
        exact inductionHypothesis smaller fewer carries
      · simp only [if_neg idle]
        apply inductionHypothesis smaller fewer
        have same := schedule_lasting kcp rtomin segment (causeOf kcp resent segment)
        generalize schedule kcp rtomin segment (causeOf kcp resent segment) = ready at same ⊢
        have data : ready.data = segment.data := congrArg (fun seg => seg.data) same
        have fits := small segment List.mem_cons_self
        rw [← data] at fits
        have sent : condition { ready with ts := kcp.current, wnd := wnd, una := kcp.rcvNxt } := by
          apply each _ rfl
          rw [List.map_cons, ← same]
          exact List.mem_cons_self
        exact carries.write unit fits sent

theorem flushControl_carries {kcp : Ikcpcb} {limit : Nat} {sndBuf : List Ikcpseg}
    (unit : kcp.mtu.toNat ≤ limit) (small : 24 ≤ limit) :
    Carries (Written kcp sndBuf) limit kcp.bufferSize.toNat (flushControl kcp).2 := by
  rcases probeWindow_eq { kcp with acklist := [] } with ⟨tsProbe, probeWait, probe, probed⟩
  have each : forall sn ts, (sn, ts) ∈ kcp.acklist ->
      Written kcp sndBuf { flushHead kcp with sn := sn, ts := ts } :=
    fun sn ts member => .ack rfl rfl rfl rfl (List.mem_map_of_mem member)
  rcases flushAcks_carries unit small rfl each (.empty _ _ kcp.bufferSize) with ⟨acks, sn, ts, head⟩
  simp only [flushControl, probed]
  generalize flushAcks kcp.mtu kcp.acklist (flushHead kcp) (.new kcp.bufferSize) = acked at acks head ⊢
  rw [head]
  apply flushProbe_carries _ small rfl _ _ acks
  · exact unit
  · exact .window rfl rfl rfl (.inl rfl)
  · exact .window rfl rfl rfl (.inr rfl)

/-- Numbering changes no data. -/
theorem mem_numberSegs {stamp seg : Ikcpseg} {sn : UInt32} {segments : List Ikcpseg}
    (member : seg ∈ numberSegs stamp sn segments) :
    Exists fun old => old ∈ segments ∧ seg.frg = old.frg ∧ seg.data = old.data := by
  induction segments generalizing sn with
  | nil => cases member
  | cons first others inductionHypothesis =>
      rcases List.mem_cons.mp member with rfl | deep
      · exact ⟨first, List.mem_cons_self, rfl, rfl⟩
      · rcases inductionHypothesis deep with ⟨old, inside, same⟩
        exact ⟨old, List.mem_cons_of_mem _ inside, same⟩

/-- A flush is its control part, the loop over the send buffer, and the last
datagram. -/
theorem ikcpFlush_loop {kcp : Ikcpcb} (started : kcp.updated ≠ 0) :
    (ikcpFlush kcp).1.sndBuf.map Ikcpseg.lasting =
      (flushControl kcp).1.sndBuf.map Ikcpseg.lasting ∧
    Exists fun resent => Exists fun rtomin => Exists fun flush =>
      flush.buffer = (flushControl kcp).2 ∧
      (ikcpFlush kcp).2 = (flushSegments (flushControl kcp).1 (ikcpWndUnused kcp) resent rtomin
        (flushControl kcp).1.sndBuf flush).2.buffer.handOver := by
  unfold ikcpFlush
  simp only [if_neg started]
  rcases shrinkCwnd_eq _ _ _ _ _ with ⟨_, _, _, shrunk⟩
  rw [shrunk]
  exact ⟨flushSegments_lasting _ _ _ _ _ _, _, _, _, rfl, rfl⟩

/-- A flush hands over datagrams of at least one segment that are not longer
than the limit. -/
theorem ikcpFlush_carries {kcp : Ikcpcb} {limit : Nat} (unit : kcp.mtu.toNat ≤ limit)
    (small : 24 ≤ limit)
    (queued : forall seg, seg ∈ kcp.sndQueue -> 24 + seg.data.length ≤ limit)
    (buffered : forall seg, seg ∈ kcp.sndBuf -> 24 + seg.data.length ≤ limit) :
    Carries (Written kcp (ikcpFlush kcp).1.sndBuf) limit kcp.bufferSize.toNat (ikcpFlush kcp).2 := by
  by_cases idle : kcp.updated = 0
  · rw [ikcpFlush, if_pos idle]
    exact .empty _ _ _
  · rcases flushControl_spec kcp with ⟨front, back, tsProbe, probeWait, split, roomy, numbered⟩
    rcases ikcpFlush_loop idle with ⟨same, resent, rtomin, flush, start, out⟩
    rw [out]
    apply Carries.handOver
    apply flushSegments_carries
    · rw [numbered]
      exact unit
    · rw [numbered]
      intro segment member
      rcases List.mem_append.mp member with old | new
      · exact buffered segment old
      · rcases mem_numberSegs new with ⟨origin, inside, _, data⟩
        rw [data]
        apply queued
        rw [split]
        exact List.mem_append_left _ inside
    · intro segment una member
      rw [← same] at member
      rw [numbered] at una
      exact .data una member
    · rw [start]
      exact flushControl_carries unit small

end Kcp
end ServerTech
