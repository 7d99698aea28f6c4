import ServerTech.Iocp.PacketReader

namespace ServerTech

/-!
# When the receive loop can still receive

Free space in a two-region buffer is not the capacity minus the size.  Once
region B is open, the gap behind region A is lost until region A is used up.
A reader that waits for the rest of a packet does not use up region A, so it
can run out of space while the packet would still fit the buffer.

The buffer runs out of space only when it holds more than half of its
capacity.  A payload of at most half of the capacity plus one byte is complete
by then, and this bound cannot be raised: the last part of the module builds
the run in which the reader waits for one byte more with no space left.
-/

/-- A buffer without space is completely full, or holds more than half of its
capacity in two regions. -/
theorem BipBuffer.Valid.content_of_space_eq_zero {b : BipBuffer} (valid : b.Valid)
    (full : b.space = 0) :
    b.content.length = b.bufferEnd ∨ b.bufferEnd + 2 ≤ 2 * b.content.length := by
  have fits := valid.fitsA
  rw [space_eq_free] at full
  rw [valid.length_content]
  rcases opened_cases b with ⟨same, gap⟩ | ⟨same, null, gap⟩
  · rw [same] at full
    cases shape : b.regionBPtr with
    | none =>
        have empty := valid.noB shape
        have before := gap shape
        simp only [free, shape, getAFreeSpace, getSpaceBeforeA] at full before
        omega
    | some ptr =>
        have bounds := valid.someB ptr shape
        have nonempty : b.regionASize ≠ 0 := by
          intro empty
          have null := (valid.emptyA empty).2
          rw [shape] at null
          cases null
        simp only [free, shape, getBFreeSpace] at full
        omega
  · have empty := valid.noB null
    rw [same] at full
    simp only [free, allocateB, getBFreeSpace, getAFreeSpace, getSpaceBeforeA] at full gap
    omega

namespace Iocp

open Transition

/-- The receive buffer of `ServerSocket`, as its constructor allocates it. -/
def recvBufSize : Nat :=
  1024 * 512

namespace PacketReader

theorem readHeader_capacity (s : PacketReader) :
    s.readHeader.readBuffer.capacity = s.readBuffer.capacity := by
  change ((s.readBuffer.read 2).2.read 4).2.capacity = _
  rw [Ring.read_capacity, Ring.read_capacity]

theorem takePacket_capacity (s : PacketReader) :
    s.takePacket.readBuffer.capacity = s.readBuffer.capacity := by
  unfold takePacket
  split
  · exact s.readBuffer.read_capacity _
  · rfl

theorem onRead_capacity (s : PacketReader) :
    s.onRead.readBuffer.capacity = s.readBuffer.capacity := by
  induction s using onRead.induct with
  | case1 s idle short => rw [onRead, if_pos idle, if_pos short]
  | case2 s idle header short =>
      rw [onRead, if_pos idle, if_neg header, if_pos short, readHeader_capacity]
  | case3 s idle header payload inductionHypothesis =>
      rw [onRead, if_pos idle, if_neg header, if_neg payload, inductionHypothesis,
        takePacket_capacity, readHeader_capacity]
  | case4 s pending short => rw [onRead, if_neg pending, if_pos short]
  | case5 s pending payload inductionHypothesis =>
      rw [onRead, if_neg pending, if_neg payload, inductionHypothesis, takePacket_capacity]

theorem run_capacity (block : List UInt8) {chunks : List (List UInt8)} {s : PacketReader}
    (run : Run Receives (new block) chunks s) : s.readBuffer.capacity = block.length := by
  induction run with
  | refl => rfl
  | snoc _ last inductionHypothesis =>
      rcases last with ⟨room, rfl⟩
      rw [onRead_capacity]
      exact (Ring.commit_capacity _ room).trans inductionHypothesis

/-- The size of the header a reader holds is the payload size of a packet that
was sent. -/
theorem pending_size {packets : List PacketBuffer} {s : PacketReader}
    (sized : forall packet, packet ∈ packets -> packet.Sized) (sound : s.Sound)
    (cut : s.wire <+: Framing.stream frame packets) (pending : s.remaining ≠ 0) :
    Exists fun packet => packet ∈ packets ∧ packet.size = s.remaining.toNat := by
  rcases Framing.exists_following frame_selfDelimiting sized sound cut with
    ⟨following, rfl, starts⟩
  rw [unread, if_neg pending] at starts
  have header := (List.prefix_append _ _).trans starts
  cases following with
  | nil =>
      have length := header.length_le
      rw [length_msgHeader, Framing.stream_nil, List.length_nil] at length
      omega
  | cons packet following =>
      have member : packet ∈ s.handled ++ packet :: following :=
        List.mem_append.mpr (Or.inr List.mem_cons_self)
      have leads : msgHeader packet.opcode (UInt32.ofNat packet.size) <+:
          Framing.stream frame (packet :: following) := by
        rw [Framing.stream_cons]
        exact (header_isPrefix_frame packet).trans (List.prefix_append _ _)
      refine ⟨packet, member, ?_⟩
      rw [← (header_unique leads header).2, (sized packet member).toNat_size]

/-- Payloads of at most half of the capacity and one byte never find the
buffer without space. -/
theorem space_pos_of_half (block : List UInt8) (large : 10 ≤ block.length)
    (packets : List PacketBuffer) (half : forall packet, packet ∈ packets ->
      packet.size < 2 ^ 32 ∧ 2 * packet.size ≤ block.length + 2)
    {chunks : List (List UInt8)} {s : PacketReader} (run : Run Receives (new block) chunks s)
    (cut : chunks.flatten <+: Framing.stream frame packets) : 0 < s.readBuffer.space := by
  rcases run_wire block run with ⟨arrived, waiting, sound⟩
  rw [← arrived] at cut
  apply Nat.pos_of_ne_zero
  intro full
  rw [Ring.space_eq] at full
  have capacity : s.readBuffer.bip.bufferEnd = block.length := run_capacity block run
  have much := s.readBuffer.bip_valid.content_of_space_eq_zero full
  rw [capacity] at much
  change s.readBuffer.content.length = _ ∨ _ ≤ 2 * s.readBuffer.content.length at much
  rcases waiting with ⟨_, short⟩ | ⟨pending, short⟩
  · omega
  · rcases pending_size (fun packet member => (half packet member).1) sound cut pending with
      ⟨packet, member, size⟩
    have bound := (half packet member).2
    omega

/-! ## A run that wedges -/

/-- Region A is the range of `size` bytes at `start` and region B is closed. -/
structure At (r : Ring) (start size : Nat) : Prop where
  pointer : r.bip.regionAPtr = start
  length : r.bip.regionASize = size
  single : r.bip.regionBPtr = none

theorem At.content_length {r : Ring} {start size : Nat} (at_ : At r start size) :
    r.content.length = size := by
  change r.bip.content.length = size
  rw [r.bip_valid.length_content, r.bip_valid.noB at_.single, at_.length, Nat.add_zero]

/-- Reading less than region A holds only moves the start of region A. -/
theorem At.read {r : Ring} {start size count : Nat} (at_ : At r start size) (less : count < size) :
    At (r.read count).2 (start + count) (size - count) := by
  have enough : count ≤ r.content.length := by
    rw [at_.content_length]
    omega
  have inside : count < r.bip.regionASize := by
    rw [at_.length]
    exact less
  have after : (r.read count).2.bip = _ := (r.read_of_enough enough).2
  rw [BipBuffer.dropFront, if_pos inside] at after
  constructor
  · rw [after, ← at_.pointer]
  · rw [after, ← at_.length]
  · rw [after]
    exact at_.single

/-- A header at the front of the buffer is taken as it is. -/
theorem At.readHeader {s : PacketReader} {start size : Nat} {opcode : UInt16} {bytes : UInt32}
    {rest : List UInt8} (at_ : At s.readBuffer start size) (more : 6 < size)
    (front : s.readBuffer.content = msgHeader opcode bytes ++ rest) :
    At s.readHeader.readBuffer (start + 6) (size - 6) ∧ s.readHeader.opcode = opcode ∧
      s.readHeader.remaining = bytes ∧ s.readHeader.readBuffer.content = rest := by
  have enough : 6 ≤ s.readBuffer.content.length := by
    rw [at_.content_length]
    omega
  have split := front.symm.trans (s.readHeader_spec enough).1
  have same := msgHeader_injective (List.append_inj_left split
    (by rw [length_msgHeader, length_msgHeader]))
  have after : At s.readHeader.readBuffer (start + 2 + 4) (size - 2 - 4) :=
    (at_.read (by omega)).read (by omega)
  refine ⟨?_, same.1.symm, same.2.symm, ?_⟩
  · rw [Nat.add_assoc, Nat.sub_sub] at after
    exact after
  · exact (List.append_inj_right split (by rw [length_msgHeader, length_msgHeader])).symm

/-- A payload at the front of the buffer is taken as it is. -/
theorem At.takePacket {s : PacketReader} {start size : Nat} {payload rest : List UInt8}
    (at_ : At s.readBuffer start size) (more : payload.length < size)
    (front : s.readBuffer.content = payload ++ rest) (pending : s.remaining ≠ 0)
    (length : s.remaining.toNat = payload.length) :
    At s.takePacket.readBuffer (start + payload.length) (size - payload.length) ∧
      s.takePacket.remaining = 0 ∧ s.takePacket.readBuffer.content = rest := by
  have enough : s.remaining.toNat ≤ s.readBuffer.content.length := by
    rw [at_.content_length, length]
    exact Nat.le_of_lt more
  have spec := (s.takePacket_spec enough).2
  have same : s.takePacket.readBuffer = (s.readBuffer.read payload.length).2 := by
    simp only [PacketReader.takePacket, if_pos pending, length]
  refine ⟨?_, spec.2, ?_⟩
  · rw [same]
    exact at_.read more
  · rw [spec.1, front, length, List.drop_left]

/-- When the gap in front of region A is larger than the gap behind it, it is
the space that is offered. -/
theorem At.space {r : Ring} {start size : Nat} (at_ : At r start size)
    (late : r.capacity - start - size < start) :
    r.bip.opened = r.bip.allocateB ∧ r.space = start := by
  have bigger : r.bip.getAFreeSpace < r.bip.getSpaceBeforeA := by
    rw [BipBuffer.getAFreeSpace, BipBuffer.getSpaceBeforeA, at_.pointer, at_.length]
    exact late
  rcases BipBuffer.opened_cases r.bip with ⟨_, gap⟩ | ⟨same, _, _⟩
  · exact absurd (gap at_.single) (Nat.not_le.mpr bigger)
  · refine ⟨same, ?_⟩
    rw [r.space_eq, BipBuffer.space_eq_free, same]
    simp only [BipBuffer.free, BipBuffer.allocateB, BipBuffer.getBFreeSpace, at_.pointer,
      r.bip_valid.noB at_.single, Nat.sub_zero]

theorem At.fill {r : Ring} {start size : Nat} (at_ : At r start size)
    (late : r.capacity - start - size < start) {data : List UInt8} (room : data.length ≤ r.space)
    (all : data.length = start) : (r.commit data room).space = 0 := by
  have after := r.commit_bip room
  rw [(at_.space late).1, BipBuffer.push_some rfl] at after
  rw [Ring.space_eq, BipBuffer.space, BipBuffer.getSpace, after]
  simp only [BipBuffer.allocateB, BipBuffer.getBFreeSpace, at_.pointer,
    r.bip_valid.noB at_.single, all, Nat.sub_zero, Nat.zero_add, Nat.sub_self]

/-- Committing to a fresh buffer. -/
theorem At.first {block data : List UInt8} (room : data.length ≤ (Ring.allocate block).space) :
    At ((Ring.allocate block).commit data room) 0 data.length := by
  have after := (Ring.allocate block).commit_bip room
  have same : (Ring.allocate block).bip.opened = (Ring.allocate block).bip := by
    rcases BipBuffer.opened_cases (Ring.allocate block).bip with ⟨same, _⟩ | ⟨_, _, bigger⟩
    · exact same
    · exact absurd bigger (Nat.not_lt_zero _)
  rw [same, BipBuffer.push_none rfl] at after
  constructor
  · rw [after]
    rfl
  · rw [after]
    exact Nat.zero_add _
  · rw [after]
    rfl

/-- A reader with a header and a payload in its buffer hands the packet over
and goes on. -/
theorem onRead_packet {s : PacketReader} {start size : Nat} {opcode : UInt16}
    {payload rest : List UInt8} (at_ : At s.readBuffer start size) (idle : s.remaining = 0)
    (front : s.readBuffer.content = frame ⟨opcode, payload⟩ ++ rest)
    (more : 6 + payload.length < size) (some_ : 0 < payload.length)
    (sized : payload.length < 2 ^ 32) :
    Exists fun after => s.onRead = onRead after ∧
      At after.readBuffer (start + (6 + payload.length)) (size - (6 + payload.length)) ∧
      after.remaining = 0 ∧ after.readBuffer.content = rest := by
  rw [frame, List.append_assoc] at front
  change _ = msgHeader opcode (UInt32.ofNat payload.length) ++ (payload ++ rest) at front
  rcases at_.readHeader (by omega) front with ⟨atPayload, _, remaining, content⟩
  have length : s.readHeader.remaining.toNat = payload.length := by
    rw [remaining]
    exact UInt32.toNat_ofNat_of_lt' sized
  have pending : s.readHeader.remaining ≠ 0 := by
    intro zero
    rw [zero] at length
    exact Nat.ne_of_lt some_ length
  rcases atPayload.takePacket (by omega) content pending length with ⟨atRest, done, left⟩
  have header : ¬ s.readBuffer.getSize < 6 := by
    rw [Ring.getSize_eq, at_.content_length]
    omega
  have complete : ¬ s.readHeader.readBuffer.getSize < s.readHeader.remaining.toNat := by
    rw [Ring.getSize_eq, atPayload.content_length, length]
    omega
  refine ⟨s.readHeader.takePacket, ?_, ?_, done, left⟩
  · rw [onRead, if_pos idle, if_neg header, if_neg complete]
  · rw [Nat.add_assoc, Nat.sub_sub] at atRest
    exact atRest

/-- A reader that finds the next header and too little of its payload waits
with that header. -/
theorem onRead_header {s : PacketReader} {start size : Nat} {opcode : UInt16} {bytes : UInt32}
    {rest : List UInt8} (at_ : At s.readBuffer start size) (idle : s.remaining = 0)
    (front : s.readBuffer.content = msgHeader opcode bytes ++ rest) (more : 6 < size)
    (short : size - 6 < bytes.toNat) :
    At s.onRead.readBuffer (start + 6) (size - 6) ∧ s.onRead.remaining = bytes := by
  rcases at_.readHeader more front with ⟨atPayload, _, remaining, _⟩
  have header : ¬ s.readBuffer.getSize < 6 := by
    rw [Ring.getSize_eq, at_.content_length]
    omega
  have incomplete : s.readHeader.readBuffer.getSize < s.readHeader.remaining.toNat := by
    rw [Ring.getSize_eq, atPayload.content_length, remaining]
    exact short
  have returned : s.onRead = s.readHeader := by
    rw [onRead, if_pos idle, if_neg header, if_pos incomplete]
  rw [returned]
  exact ⟨atPayload, remaining⟩

/-- The two packets of the run: the first leaves region A in the middle of the
block, the second is two bytes longer than half of the block. -/
def wedgePackets (half : Nat) : List PacketBuffer :=
  [⟨1, List.replicate (half - 12) 0⟩, ⟨1, List.replicate (half + 2) 0⟩]

/-- The chunks in which they arrive. -/
def wedgeChunks (half : Nat) : List (List UInt8) :=
  [frame ⟨1, List.replicate (half - 12) 0⟩ ++ (msgHeader 1 (UInt32.ofNat (half + 2)) ++ [0]),
    List.replicate half 0]

theorem wedgeChunks_cut (half : Nat) :
    (wedgeChunks half).flatten <+: Framing.stream frame (wedgePackets half) := by
  refine ⟨[0], ?_⟩
  have payload : List.replicate (half + 2) (0 : UInt8) = [0] ++ List.replicate half 0 ++ [0] := by
    rw [List.append_assoc, ← List.replicate_succ', List.singleton_append, ← List.replicate_succ]
  simp only [wedgeChunks, wedgePackets, List.flatten_cons, List.flatten_nil, List.append_nil,
    Framing.stream_cons, Framing.stream_nil]
  rw [frame, frame, PacketBuffer.size, PacketBuffer.size, List.length_replicate,
    List.length_replicate, payload]
  simp only [List.append_assoc]

/-- The first chunk leaves one byte in the middle of the block, and the header
of the second packet taken. -/
theorem wedge_middle (half : Nat) (large : 12 < half) (small : half + 2 < 2 ^ 32)
    (block : List UInt8) (length : block.length = 2 * half) :
    Exists fun s => Receives (new block) (frame ⟨1, List.replicate (half - 12) 0⟩ ++
        (msgHeader 1 (UInt32.ofNat (half + 2)) ++ [0])) s ∧
      At s.readBuffer half 1 ∧ s.remaining.toNat = half + 2 := by
  have chunkLength : (frame ⟨1, List.replicate (half - 12) 0⟩ ++
      (msgHeader 1 (UInt32.ofNat (half + 2)) ++ [0])).length = half + 1 := by
    rw [List.length_append, List.length_append, length_frame, length_msgHeader,
      PacketBuffer.size, List.length_replicate, List.length_singleton]
    omega
  have room : (frame ⟨1, List.replicate (half - 12) 0⟩ ++
      (msgHeader 1 (UInt32.ofNat (half + 2)) ++ [0])).length ≤ (new block).readBuffer.space := by
    change _ ≤ (Ring.allocate block).space
    rw [chunkLength, Ring.allocate_space, length]
    omega
  have atStart := At.first room
  rw [chunkLength] at atStart
  have arrived := Ring.commit_content (new block).readBuffer room
  rw [show (new block).readBuffer.content = [] from Ring.allocate_content block,
    List.nil_append] at arrived
  rcases onRead_packet (s := { new block with readBuffer := (new block).readBuffer.commit _ room })
    atStart rfl arrived (by rw [List.length_replicate]; omega)
    (by rw [List.length_replicate]; omega) (by rw [List.length_replicate]; omega) with
    ⟨second, same, atSecond, idle, content⟩
  have size : (UInt32.ofNat (half + 2)).toNat = half + 2 := UInt32.toNat_ofNat_of_lt' small
  rw [List.length_replicate, show 0 + (6 + (half - 12)) = half - 6 by omega,
    show half + 1 - (6 + (half - 12)) = 7 by omega] at atSecond
  rcases onRead_header atSecond idle content (by decide) (by rw [size]; omega) with
    ⟨atThird, pending⟩
  refine ⟨_, ⟨room, rfl⟩, ?_⟩
  rw [same]
  rw [show half - 6 + 6 = half by omega] at atThird
  exact ⟨atThird, by rw [pending, size]⟩

/-- The run ends without space and without the last byte of the second
packet. -/
theorem wedge_run (half : Nat) (large : 12 < half) (small : half + 2 < 2 ^ 32)
    (block : List UInt8) (length : block.length = 2 * half) :
    Exists fun s => Run Receives (new block) (wedgeChunks half) s ∧ s.readBuffer.space = 0 := by
  rcases wedge_middle half large small block length with ⟨middle, first, atMiddle, pending⟩
  have capacity : middle.readBuffer.capacity = 2 * half :=
    (run_capacity block (.cons first (.refl _))).trans length
  have late : middle.readBuffer.capacity - half - 1 < half := by
    rw [capacity]
    omega
  have room : (List.replicate half (0 : UInt8)).length ≤ middle.readBuffer.space :=
    Nat.le_of_eq (List.length_replicate.trans (atMiddle.space late).2.symm)
  have short : (middle.readBuffer.commit _ room).getSize < middle.remaining.toNat := by
    rw [Ring.getSize_eq, Ring.commit_content, List.length_append, atMiddle.content_length,
      List.length_replicate, pending]
    omega
  have waits : middle.remaining ≠ 0 := by
    intro zero
    rw [zero] at pending
    exact Nat.succ_ne_zero _ pending.symm
  refine ⟨_, .cons first (.cons ⟨room, rfl⟩ (.refl _)), ?_⟩
  rw [onRead, if_neg waits, if_pos short]
  exact atMiddle.fill late room (List.length_replicate ..)

/-- Whether the reader always finds space after `OnRead`, when no payload is
longer than `bound`. -/
def NeverWedges (block : List UInt8) (bound : Nat) : Prop :=
  forall (packets : List PacketBuffer) (chunks : List (List UInt8)) (s : PacketReader),
    (forall packet, packet ∈ packets -> packet.size ≤ bound ∧ packet.Sized) ->
    Run Receives (new block) chunks s -> chunks.flatten <+: Framing.stream frame packets ->
    0 < s.readBuffer.space

theorem neverWedges_of_le (block : List UInt8) (allocated : block.length = recvBufSize)
    {bound : Nat} (bounded : bound ≤ recvBufSize / 2 + 1) : NeverWedges block bound := by
  intro packets chunks s sizes run cut
  have whole : recvBufSize = 524288 := rfl
  apply space_pos_of_half block (by omega) packets _ run cut
  intro packet member
  rcases sizes packet member with ⟨atMost, sized⟩
  exact ⟨sized, by omega⟩

theorem not_neverWedges (block : List UInt8) (allocated : block.length = recvBufSize)
    {bound : Nat} (longer : recvBufSize / 2 + 1 < bound) : ¬ NeverWedges block bound := by
  intro never
  rcases wedge_run 262144 (by decide) (by decide) block allocated with ⟨s, run, full⟩
  have sizes : forall packet, packet ∈ wedgePackets 262144 ->
      packet.size ≤ bound ∧ packet.Sized := by
    intro packet member
    have half : recvBufSize / 2 + 1 = 262145 := rfl
    rcases List.mem_pair.mp member with rfl | rfl
    · rw [PacketBuffer.Sized, PacketBuffer.size, List.length_replicate]
      omega
    · rw [PacketBuffer.Sized, PacketBuffer.size, List.length_replicate]
      omega
  exact Nat.ne_of_gt (never _ _ s sizes run (wedgeChunks_cut 262144)) full

/-- The receive loop of `ServerSocket` never wedges exactly when payloads are
bounded by half of the buffer and one byte. -/
theorem neverWedges_iff (block : List UInt8) (allocated : block.length = recvBufSize) (bound : Nat) :
    NeverWedges block bound ↔ bound ≤ recvBufSize / 2 + 1 := by
  constructor
  · intro never
    apply Nat.le_of_not_lt
    intro longer
    exact not_neverWedges block allocated longer never
  · exact neverWedges_of_le block allocated

/-- A zero-filled buffer and the longest payload that is always safe. -/
theorem neverWedges_half_and_one : NeverWedges (List.replicate recvBufSize 0) 262145 :=
  (neverWedges_iff _ (List.length_replicate ..) 262145).mpr (by decide)

/-- Payloads that merely fit the buffer can wedge it. -/
theorem wedges_at_capacity : ¬ NeverWedges (List.replicate recvBufSize 0) recvBufSize :=
  not_neverWedges _ (List.length_replicate ..) (by decide)

end PacketReader
end Iocp
end ServerTech
