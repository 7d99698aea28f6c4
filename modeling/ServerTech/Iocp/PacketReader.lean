import ServerTech.CircularBuffer.Ring
import ServerTech.Foundation.Transition
import ServerTech.Iocp.Packet

namespace ServerTech
namespace Iocp

open Transition

/-!
# Reading packets from the receive buffer

`ServerSocket::OnRead` and `ClientSocket::OnRead` have the same text.  They
loop: take a header when none is pending, return when the payload has not
arrived yet, else hand the packet over.  A header that was taken stays in
`m_opcode` and `m_remaining`, and `m_remaining` is zero both when no header is
pending and when a packet without payload is.

The proof rests on a conservation law.  Put the pending header back in front
of the buffered bytes, and put the frames of the packets handed over in front
of that: the result is what has arrived, before and after every iteration.
-/

/-- The members that the read path uses, and the packets given to
`HandlePacket` so far, oldest first. -/
structure PacketReader where
  readBuffer : Ring
  remaining : UInt32
  opcode : UInt16
  handled : List PacketBuffer

namespace PacketReader

/-- The constructor, with the block of the receive buffer. -/
def new (block : List UInt8) : PacketReader where
  readBuffer := Ring.allocate block
  remaining := 0
  opcode := 0
  handled := []

/-- Read the two header fields.  A failed read would leave a field as it is. -/
def readHeader (s : PacketReader) : PacketReader :=
  let first := s.readBuffer.read 2
  let second := first.2.read 4
  { s with
    readBuffer := second.2
    opcode := (first.1.map fun bytes => UInt16.ofNat (LittleEndian.decode bytes)).getD s.opcode
    remaining := (second.1.map fun bytes =>
      UInt32.ofNat (LittleEndian.decode bytes)).getD s.remaining }

/-- Build the packet, hand it over and forget the header.  The storage is
resized, hence zero-filled, and then read into, unless the payload is empty. -/
def takePacket (s : PacketReader) : PacketReader :=
  let payload := s.readBuffer.read s.remaining.toNat
  if s.remaining ≠ 0 then
    { readBuffer := payload.2
      remaining := 0
      opcode := 0
      handled := s.handled ++
        [⟨s.opcode, payload.1.getD (List.replicate s.remaining.toNat 0)⟩] }
  else
    { s with remaining := 0, opcode := 0, handled := s.handled ++ [⟨s.opcode, []⟩] }

/-- Six bytes are taken from the buffer, and they are the header of the fields
that were read. -/
theorem readHeader_spec (s : PacketReader) (enough : 6 ≤ s.readBuffer.content.length) :
    s.readBuffer.content =
        msgHeader s.readHeader.opcode s.readHeader.remaining ++ s.readHeader.readBuffer.content ∧
      s.readHeader.handled = s.handled := by
  have two : 2 ≤ s.readBuffer.content.length := by omega
  have afterTwo := s.readBuffer.read_content two
  have four : 4 ≤ (s.readBuffer.read 2).2.content.length := by
    rw [afterTwo, List.length_drop]
    omega
  have afterSix : s.readHeader.readBuffer.content = s.readBuffer.content.drop 6 := by
    change ((s.readBuffer.read 2).2.read 4).2.content = _
    rw [Ring.read_content _ four, afterTwo, List.drop_drop]
  have opcode : s.readHeader.opcode =
      UInt16.ofNat (LittleEndian.decode ((s.readBuffer.content.take 6).take 2)) := by
    change ((s.readBuffer.read 2).1.map _).getD s.opcode = _
    rw [(s.readBuffer.read_of_enough two).1, List.take_take]
    rfl
  have remaining : s.readHeader.remaining =
      UInt32.ofNat (LittleEndian.decode ((s.readBuffer.content.take 6).drop 2)) := by
    change (((s.readBuffer.read 2).2.read 4).1.map _).getD s.remaining = _
    rw [(Ring.read_of_enough _ four).1, afterTwo, List.drop_take]
    rfl
  have six : (s.readBuffer.content.take 6).length = 6 := by
    rw [List.length_take]
    omega
  refine ⟨?_, rfl⟩
  rw [opcode, remaining, msgHeader_decode six, afterSix, List.take_append_drop]

theorem takePacket_spec (s : PacketReader) (enough : s.remaining.toNat ≤ s.readBuffer.content.length) :
    s.takePacket.handled =
        s.handled ++ [⟨s.opcode, s.readBuffer.content.take s.remaining.toNat⟩] ∧
      s.takePacket.readBuffer.content = s.readBuffer.content.drop s.remaining.toNat ∧
      s.takePacket.remaining = 0 := by
  unfold takePacket
  by_cases payload : s.remaining ≠ 0
  · simp only [if_pos payload]
    rw [(s.readBuffer.read_of_enough enough).1]
    exact ⟨rfl, s.readBuffer.read_content enough, trivial⟩
  · have zero : s.remaining = 0 := not_not.mp payload
    have none_ : s.remaining.toNat = 0 := by rw [zero]; rfl
    simp only [if_neg payload, none_, List.take_zero, List.drop_zero]
    exact ⟨trivial, trivial, trivial⟩

/-- The body of `OnRead`.  Every pass around the loop takes a header or a
non-empty payload from the buffer, so the loop ends. -/
def onRead (s : PacketReader) : PacketReader :=
  if s.remaining = 0 then
    if s.readBuffer.getSize < 6 then s
    else if s.readHeader.readBuffer.getSize < s.readHeader.remaining.toNat then s.readHeader
    else onRead s.readHeader.takePacket
  else if s.readBuffer.getSize < s.remaining.toNat then s
  else onRead s.takePacket
termination_by s.readBuffer.content.length
decreasing_by
  · rename_i header payload
    rw [Ring.getSize_eq] at header payload
    have split := congrArg List.length (s.readHeader_spec (Nat.le_of_not_lt header)).1
    rw [List.length_append, length_msgHeader] at split
    rw [(s.readHeader.takePacket_spec (Nat.le_of_not_lt payload)).2.1, List.length_drop]
    omega
  · rename_i pending payload
    rw [Ring.getSize_eq] at payload
    have positive : s.remaining.toNat ≠ 0 := fun zero =>
      pending (UInt32.toNat_inj.mp zero)
    rw [(s.takePacket_spec (Nat.le_of_not_lt payload)).2.1, List.length_drop]
    omega

/-! ## The conservation law -/

/-- The bytes that have not been handed over, as they arrived. -/
def unread (s : PacketReader) : List UInt8 :=
  if s.remaining = 0 then s.readBuffer.content
  else msgHeader s.opcode s.remaining ++ s.readBuffer.content

/-- Everything that has arrived, rebuilt from the state. -/
def wire (s : PacketReader) : List UInt8 :=
  Framing.stream frame s.handled ++ s.unread

/-- Nothing more can be handed over: the header or the payload is short. -/
def Waiting (s : PacketReader) : Prop :=
  (s.remaining = 0 ∧ s.readBuffer.content.length < 6) ∨
    (s.remaining ≠ 0 ∧ s.readBuffer.content.length < s.remaining.toNat)

/-- Every packet handed over has a size that fits the header. -/
def Sound (s : PacketReader) : Prop :=
  forall packet, packet ∈ s.handled -> packet.Sized

theorem takePacket_wire (s : PacketReader)
    (enough : s.remaining.toNat ≤ s.readBuffer.content.length) :
    s.takePacket.wire = Framing.stream frame s.handled ++
      (msgHeader s.opcode s.remaining ++ s.readBuffer.content) := by
  rcases s.takePacket_spec enough with ⟨handled, content, remaining⟩
  have size : (s.readBuffer.content.take s.remaining.toNat).length = s.remaining.toNat := by
    rw [List.length_take, Nat.min_eq_left enough]
  rw [wire, unread, if_pos remaining, handled, content, Framing.stream_append, Framing.stream_cons,
    Framing.stream_nil, List.append_nil, frame, PacketBuffer.size, size, UInt32.ofNat_toNat,
    List.append_assoc, List.append_assoc, List.take_append_drop]

theorem takePacket_sound (s : PacketReader)
    (enough : s.remaining.toNat ≤ s.readBuffer.content.length) (sound : s.Sound) :
    s.takePacket.Sound := by
  intro packet member
  rw [(s.takePacket_spec enough).1] at member
  rcases List.mem_append.mp member with earlier | last
  · exact sound packet earlier
  · rw [List.mem_singleton.mp last, PacketBuffer.Sized, PacketBuffer.size, List.length_take,
      Nat.min_eq_left enough]
    exact s.remaining.toNat_lt

/-- `OnRead` conserves what has arrived and returns only when it has to wait. -/
theorem onRead_spec (s : PacketReader) (sound : s.Sound) :
    s.onRead.wire = s.wire ∧ s.onRead.Waiting ∧ s.onRead.Sound := by
  induction s using onRead.induct with
  | case1 s idle short =>
      rw [onRead, if_pos idle, if_pos short]
      rw [Ring.getSize_eq] at short
      exact ⟨rfl, Or.inl ⟨idle, short⟩, sound⟩
  | case2 s idle header short =>
      rw [onRead, if_pos idle, if_neg header, if_pos short]
      rw [Ring.getSize_eq] at header short
      rcases s.readHeader_spec (Nat.le_of_not_lt header) with ⟨split, handled⟩
      have pending : s.readHeader.remaining ≠ 0 := by
        intro zero
        rw [zero] at short
        exact Nat.not_lt_zero _ short
      refine ⟨?_, Or.inr ⟨pending, short⟩, ?_⟩
      · rw [wire, wire, unread, unread, if_pos idle, if_neg pending, handled, ← split]
      · rw [Sound, handled]
        exact sound
  | case3 s idle header payload inductionHypothesis =>
      rw [onRead, if_pos idle, if_neg header, if_neg payload]
      rw [Ring.getSize_eq] at header payload
      rcases s.readHeader_spec (Nat.le_of_not_lt header) with ⟨split, handled⟩
      have soundHeader : s.readHeader.Sound := by
        rw [Sound, handled]
        exact sound
      rcases inductionHypothesis
        (s.readHeader.takePacket_sound (Nat.le_of_not_lt payload) soundHeader) with
        ⟨conserved, waiting, soundAfter⟩
      refine ⟨?_, waiting, soundAfter⟩
      rw [conserved, s.readHeader.takePacket_wire (Nat.le_of_not_lt payload), handled, ← split,
        wire, unread, if_pos idle]
  | case4 s pending short =>
      rw [onRead, if_neg pending, if_pos short]
      rw [Ring.getSize_eq] at short
      exact ⟨rfl, Or.inr ⟨pending, short⟩, sound⟩
  | case5 s pending payload inductionHypothesis =>
      rw [onRead, if_neg pending, if_neg payload]
      rw [Ring.getSize_eq] at payload
      rcases inductionHypothesis (s.takePacket_sound (Nat.le_of_not_lt payload) sound) with
        ⟨conserved, waiting, soundAfter⟩
      refine ⟨?_, waiting, soundAfter⟩
      rw [conserved, s.takePacket_wire (Nat.le_of_not_lt payload), wire, unread, if_neg pending]

/-! ## Receiving -/

/-- One receive: `SetupReadEvent` offers the free space, at most that many
bytes arrive, the completion commits them and calls `OnRead`. -/
def Receives (s : PacketReader) (chunk : List UInt8) (after : PacketReader) : Prop :=
  Exists fun room : chunk.length ≤ s.readBuffer.space =>
    after = onRead { s with readBuffer := s.readBuffer.commit chunk room }

theorem commit_wire (s : PacketReader) {chunk : List UInt8}
    (room : chunk.length ≤ s.readBuffer.space) :
    wire { s with readBuffer := s.readBuffer.commit chunk room } = s.wire ++ chunk := by
  simp only [wire, unread, Ring.commit_content]
  by_cases idle : s.remaining = 0
  · simp only [if_pos idle, List.append_assoc]
  · simp only [if_neg idle, List.append_assoc]

/-- What has arrived after a run of receives, and that the reader waits. -/
theorem run_wire (block : List UInt8) {chunks : List (List UInt8)} {s : PacketReader}
    (run : Run Receives (new block) chunks s) :
    s.wire = chunks.flatten ∧ s.Waiting ∧ s.Sound := by
  induction run with
  | refl =>
      refine ⟨?_, Or.inl ⟨rfl, ?_⟩, ?_⟩
      · simp only [new, wire, unread, if_pos, Ring.allocate_content, Framing.stream_nil,
          List.append_nil, List.flatten_nil]
      · simp only [new, Ring.allocate_content, List.length_nil, Nat.zero_lt_succ]
      · intro packet member
        cases member
  | @snoc middle _ _ chunk _ last inductionHypothesis =>
      rcases inductionHypothesis with ⟨arrived, _, sound⟩
      rcases last with ⟨room, rfl⟩
      have kept : Sound { middle with readBuffer := middle.readBuffer.commit chunk room } := sound
      rcases onRead_spec _ kept with ⟨conserved, waiting, soundAfter⟩
      refine ⟨?_, waiting, soundAfter⟩
      rw [conserved, commit_wire, arrived, List.flatten_append, List.flatten_singleton]

/-- A reader that waits holds no complete frame. -/
theorem Waiting.incomplete {s : PacketReader} (waiting : s.Waiting) (packet : PacketBuffer)
    (sized : packet.Sized) : ¬ frame packet <+: s.unread := by
  intro leads
  have length := leads.length_le
  rw [length_frame] at length
  rcases waiting with ⟨idle, short⟩ | ⟨pending, short⟩
  · rw [unread, if_pos idle] at length
    omega
  · rw [unread, if_neg pending] at leads length
    have size := (header_unique ((header_isPrefix_frame packet).trans leads)
      (List.prefix_append _ _)).2
    have same : packet.size = s.remaining.toNat := by rw [← size, sized.toNat_size]
    rw [List.length_append, length_msgHeader] at length
    omega

/-- The packets handed over are exactly those whose frames have arrived
completely, in order, however the stream was cut into chunks. -/
theorem handled_eq_completed (block : List UInt8) (packets : List PacketBuffer)
    (sized : forall packet, packet ∈ packets -> packet.Sized)
    {chunks : List (List UInt8)} {s : PacketReader}
    (run : Run Receives (new block) chunks s)
    (cut : chunks.flatten <+: Framing.stream frame packets) :
    s.handled = Framing.completed frame packets chunks.flatten.length := by
  rcases run_wire block run with ⟨arrived, waiting, sound⟩
  rw [← arrived] at cut ⊢
  exact Framing.parsed_eq_completed frame_selfDelimiting sized sound cut waiting.incomplete

/-- Two packets, the first without payload, in one chunk of thirteen bytes. -/
theorem handled_eq_completed_two_packets :
    Exists fun s => Run Receives (new (List.replicate 16 0)) [[1, 0, 0, 0, 0, 0, 3, 0, 1, 0, 0, 0, 7]] s ∧
      s.handled = [⟨1, []⟩, ⟨3, [7]⟩] := by
  have room : [1, 0, 0, 0, 0, 0, 3, 0, 1, 0, 0, 0, 7].length ≤
      (new (List.replicate 16 0)).readBuffer.space := by decide
  have run : Run Receives (new (List.replicate 16 0)) [[1, 0, 0, 0, 0, 0, 3, 0, 1, 0, 0, 0, 7]] _ :=
    .cons ⟨room, rfl⟩ (.refl _)
  refine ⟨_, run, ?_⟩
  have sized : forall packet, packet ∈ [(⟨1, []⟩ : PacketBuffer), ⟨3, [7]⟩] -> packet.Sized := by
    intro packet member
    rcases List.mem_cons.mp member with rfl | member
    · show 0 < 2 ^ 32
      decide
    · rw [List.mem_singleton.mp member]
      show 1 < 2 ^ 32
      decide
  exact handled_eq_completed (List.replicate 16 0) [⟨1, []⟩, ⟨3, [7]⟩] sized run (by decide)

end PacketReader
end Iocp
end ServerTech
