import ServerTech.Foundation.Tally
import ServerTech.Iocp.Socket

namespace ServerTech
namespace Iocp

open Transition

/-!
# Whole packets in the write buffer

`SendPacket` queues the header and the payload by two calls of `Send`.  The
mutex is free between the calls, so the header of another packet can come
between them, and the second call can be refused after the first one was
accepted.  The burst functions would keep the mutex over both parts.

The accepted bytes are a sequence of whole frames in a run in which no header is
accepted while a payload is missing, and every payload finds room when its turn
comes.  Between the two calls the last frame is its header only.
-/

/-- The send buffer of `ServerSocket`, as its constructor allocates it. -/
def sendBufSize : Nat :=
  1024 * 64

namespace PacketBuffer

/-- The header that `SendPacket` makes. -/
def header (packet : PacketBuffer) : List UInt8 :=
  msgHeader packet.opcode (UInt32.ofNat packet.size)

end PacketBuffer

/-- The packet whose header is queued and whose payload is not. -/
def Op.unfinished : Op -> Option PacketBuffer
  | .sendPayload packet => if packet.contents = [] then none else some packet
  | _ => none

/-- The operations that queue bytes without `SendPacket`. -/
def Op.raw : Op -> Nat
  | .send _ | .burstSend _ => 1
  | _ => 0

namespace Socket

/-- The packets a thread has queued the header of only. -/
def unfinished (s : Socket) (thread : Nat) : List PacketBuffer :=
  (s.stack thread).filterMap Op.unfinished

/-- The condition on the steps: the threads send packets only, a header is
accepted while no payload is missing, its size field holds the size, and a
payload has room. -/
def WholePackets (s : Socket) : Event -> Prop
  | .call _ (.send _) | .call _ (.burstSend _) => False
  | .step thread _ =>
      (forall packet, (s.stack thread).head? = some (.sendHeader packet) ->
        6 ≤ s.writeBuffer.space ->
          packet.Sized ∧ forall other, s.unfinished other = []) ∧
      (forall packet, (s.stack thread).head? = some (.sendPayload packet) ->
        packet.size ≤ s.writeBuffer.space)
  | _ => True

/-- The accepted bytes are whole frames, or one thread has queued the header of
one more packet. -/
inductive Framed (s : Socket) : Prop
  | whole (packets : List PacketBuffer) (finished : forall thread, s.unfinished thread = [])
      (bytes : s.accepted.flatten = Framing.stream frame packets)
  | within (packets : List PacketBuffer) (thread : Nat) (packet : PacketBuffer)
      (own : s.unfinished thread = [packet])
      (others : forall other, other ≠ thread -> s.unfinished other = []) (sized : packet.Sized)
      (bytes : s.accepted.flatten = Framing.stream frame packets ++ packet.header)

/-- Only `SendPacket` is being called, and it queues frames. -/
structure Packets (s : Socket) : Prop where
  only : forall thread, tally Op.raw (s.stack thread) = 0
  framed : s.Framed

theorem new_packets (block : List UInt8) : (new block).Packets where
  only := fun _ => rfl
  framed := .whole [] (fun _ => rfl) rfl

variable {s after : Socket} {thread : Nat} {op : Op} {ops rest : List Op}

theorem unfinished_update (stack : after.stack = Function.update s.stack thread ops) :
    after.unfinished thread = ops.filterMap Op.unfinished ∧
      forall other, other ≠ thread -> after.unfinished other = s.unfinished other := by
  constructor
  · rw [unfinished, stack, Function.update_self]
  · intro other apart
    rw [unfinished, stack, Function.update_of_ne apart, unfinished]

theorem Packets.only_update (packets : s.Packets)
    (stack : after.stack = Function.update s.stack thread ops) (quiet : tally Op.raw ops = 0) :
    forall other, tally Op.raw (after.stack other) = 0 := by
  rw [stack, Function.forall_update_iff s.stack fun _ ops => tally Op.raw ops = 0]
  exact ⟨quiet, fun other _ => packets.only other⟩

/-- A step that queues nothing. -/
theorem Framed.keep (framed : s.Framed) (stack : after.stack = Function.update s.stack thread ops)
    (same : ops.filterMap Op.unfinished = s.unfinished thread)
    (accepted : after.accepted.flatten = s.accepted.flatten) : after.Framed := by
  have unfinished : forall other, after.unfinished other = s.unfinished other := by
    intro other
    by_cases own : other = thread
    · rw [own, (unfinished_update stack).1, same]
    · exact (unfinished_update stack).2 other own
  cases framed with
  | whole packets finished bytes =>
      exact .whole packets (fun other => (unfinished other).trans (finished other))
        (accepted.trans bytes)
  | within packets owner packet own others sized bytes =>
      exact .within packets owner packet ((unfinished owner).trans own)
        (fun other apart => (unfinished other).trans (others other apart)) sized
        (accepted.trans bytes)

/-- The payload of the packet whose header is queued. -/
theorem Framed.finish (framed : s.Framed) {packet : PacketBuffer}
    (top : s.stack thread = .sendPayload packet :: rest)
    (stack : after.stack = Function.update s.stack thread (.burstPush :: .unlock :: rest))
    (accepted : after.accepted.flatten =
      s.accepted.flatten ++ packet.contents.take (UInt32.ofNat packet.size).toNat) :
    after.Framed := by
  by_cases empty : packet.contents = []
  · refine framed.keep stack ?_ ?_
    · rw [unfinished, top]
      simp only [List.filterMap_cons, Op.unfinished, if_pos empty]
    · rw [accepted, empty, List.take_nil, List.append_nil]
  · have missing : s.unfinished thread = packet :: rest.filterMap Op.unfinished := by
      rw [unfinished, top, List.filterMap_cons, Op.unfinished, if_neg empty]
    cases framed with
    | whole packets finished bytes =>
        rw [finished] at missing
        cases missing
    | within packets owner other own others sized bytes =>
        have same : thread = owner := by
          by_contra apart
          rw [others thread apart] at missing
          cases missing
        subst same
        rw [own] at missing
        injection missing with first none_
        subst first
        refine .whole (packets ++ [other]) ?_ ?_
        · intro thread'
          by_cases here : thread' = thread
          · rw [here, (unfinished_update stack).1]
            exact none_.symm
          · rw [(unfinished_update stack).2 thread' here, others thread' here]
        · have length : other.contents.take (UInt32.ofNat other.size).toNat = other.contents := by
            rw [sized.toNat_size]
            exact List.take_length
          rw [accepted, bytes, length, Framing.stream_append, List.append_assoc]
          exact congrArg (_ ++ .) (List.append_nil _).symm

/-- The header of a packet, queued while no payload is missing. -/
theorem Framed.begin (framed : s.Framed) {packet : PacketBuffer}
    (top : s.stack thread = .sendHeader packet :: rest) (sized : packet.Sized)
    (finished : forall other, s.unfinished other = [])
    (stack : after.stack =
      Function.update s.stack thread (.burstPush :: .unlock :: .sendPayload packet :: rest))
    (accepted : after.accepted.flatten = s.accepted.flatten ++ packet.header) :
    after.Framed := by
  have none_ : rest.filterMap Op.unfinished = [] := by
    have before := finished thread
    rw [unfinished, top] at before
    exact before
  rcases unfinished_update stack with ⟨own, others⟩
  cases framed with
  | within packets owner other missing _ _ _ =>
      rw [finished] at missing
      cases missing
  | whole packets _ bytes =>
      rw [bytes] at accepted
      by_cases empty : packet.contents = []
      · refine .whole (packets ++ [packet]) ?_ ?_
        · intro other
          by_cases here : other = thread
          · rw [here, own]
            simp only [List.filterMap_cons, Op.unfinished, if_pos empty, none_]
          · rw [others other here, finished]
        · rw [accepted, Framing.stream_append, Framing.stream_cons, Framing.stream_nil, frame, empty,
            List.append_nil, List.append_nil]
          rfl
      · refine .within packets thread packet ?_ ?_ sized accepted
        · rw [own]
          simp only [List.filterMap_cons, Op.unfinished, if_neg empty, none_]
        · intro other apart
          rw [others other apart, finished]

/-! ## Steps and runs -/

theorem Performs.raw_ops (performs : Performs s thread op after ops) : tally Op.raw ops = 0 := by
  cases performs with
  | accept sends taken room =>
      rcases payload_cases sends with ⟨_, rfl⟩ | ⟨packet, _, _, rfl⟩ | ⟨packet, _, _, rfl⟩ <;> rfl
  | received alive some_ => exact tally_replies (fun _ => rfl) rfl _
  | _ => rfl

theorem flatten_accepted (s : Socket) (bytes : List UInt8) :
    (s.written bytes).accepted.flatten = s.accepted.flatten ++ bytes := by
  rw [written, List.flatten_append, List.flatten_singleton]

/-- An operation keeps the frames whole if the condition on it is met. -/
theorem Performs.framed (performs : Performs s thread op after ops) (packets : s.Packets)
    (top : s.stack thread = op :: rest)
    (headers : forall packet, op = .sendHeader packet -> 6 ≤ s.writeBuffer.space ->
      packet.Sized ∧ forall other, s.unfinished other = [])
    (payloads : forall packet, op = .sendPayload packet -> packet.size ≤ s.writeBuffer.space) :
    (after.setStack thread (ops ++ rest)).Framed := by
  have framed := packets.framed
  have only := packets.only thread
  rw [top, tally_cons] at only
  have keep : op.unfinished = none -> ops.filterMap Op.unfinished = [] ->
      after.accepted = s.accepted -> (after.setStack thread (ops ++ rest)).Framed := by
    intro done quiet accepted
    refine framed.keep (stack_setStack performs.stack _ _) ?_
      (congrArg List.flatten accepted)
    rw [List.filterMap_append, quiet, unfinished, top, List.filterMap_cons, done]
    rfl
  cases performs with
  | accept sends taken room =>
      rcases payload_cases sends with ⟨rfl, rfl⟩ | ⟨packet, rfl, rfl, rfl⟩ | ⟨packet, rfl, rfl, rfl⟩
      · exact absurd only (by rw [Op.raw]; omega)
      · rw [length_msgHeader] at room
        rcases headers packet rfl room with ⟨sized, finished⟩
        exact framed.begin top sized finished rfl (flatten_accepted _ _)
      · exact framed.finish top rfl (flatten_accepted _ _)
  | refuse sends taken full =>
      rcases payload_cases sends with ⟨rfl, rfl⟩ | ⟨packet, rfl, rfl, rfl⟩ | ⟨packet, rfl, rfl, rfl⟩
      · exact absurd only (by rw [Op.raw]; omega)
      · exact keep rfl rfl rfl
      · have room := payloads packet rfl
        have length := List.length_take_le' (UInt32.ofNat packet.size).toNat packet.contents
        rw [PacketBuffer.size] at room
        omega
  | burstAccept room => exact absurd only (by rw [Op.raw]; omega)
  | received alive some_ =>
      refine keep rfl ?_ rfl
      rw [List.filterMap_append, List.filterMap_map]
      exact congrArg (. ++ []) (List.filterMap_eq_nil_iff.mpr fun _ _ => rfl)
  | _ => exact keep rfl rfl rfl

theorem Moves.packets {event : Event} (moves : Moves s event after) (condition : s.WholePackets event)
    (packets : s.Packets) : after.Packets := by
  cases moves with
  | call idle inside =>
      rename_i thread entry
      have quiet : tally Op.raw entry.ops = 0 ∧ entry.ops.filterMap Op.unfinished = [] := by
        cases entry with
        | send bytes => exact condition.elim
        | burstSend bytes => exact condition.elim
        | _ => exact ⟨rfl, rfl⟩
      refine ⟨packets.only_update rfl quiet.1, packets.framed.keep rfl ?_ rfl⟩
      rw [quiet.2, unfinished, idle]
      rfl
  | step top performs =>
      rename_i thread succeeds op rest ops middle
      have only := packets.only thread
      rw [top, tally_cons] at only
      refine ⟨packets.only_update (stack_setStack performs.stack _ _) ?_,
        performs.framed packets top ?_ ?_⟩
      · rw [tally_append, performs.raw_ops]
        omega
      · intro packet first
        apply condition.1
        rw [top, first]
        rfl
      · intro packet first
        apply condition.2
        rw [top, first]
        rfl
  | dequeue idle outstanding some_ part =>
      refine ⟨packets.only_update rfl rfl, packets.framed.keep rfl ?_ rfl⟩
      rw [unfinished, idle]
      rfl
  | dequeueError idle outstanding =>
      rename_i thread index span
      exact ⟨packets.only,
        packets.framed.keep (Function.update_eq_self thread s.stack).symm rfl rfl⟩

theorem run_packets {block : List UInt8} {events : List Event}
    (run : Run (Restrict WholePackets (Stepping next)) (new block) events s) : s.Packets := by
  refine @Run.invariant _ _ _ Packets ?_ _ _ _ run (new_packets block)
  rintro before event after packets ⟨condition, taken⟩
  exact (next_moves taken).packets condition packets

/-- In a run that meets the condition the accepted bytes are whole frames,
followed at most by the header of a packet whose payload comes next. -/
theorem accepted_frames {block : List UInt8} {events : List Event}
    (run : Run (Restrict WholePackets (Stepping next)) (new block) events s) :
    Exists fun packets =>
      s.accepted.flatten = Framing.stream frame packets ∨
        Exists fun packet => (Exists fun thread => .sendPayload packet ∈ s.stack thread) ∧
          s.accepted.flatten = Framing.stream frame packets ++ packet.header := by
  cases (run_packets run).framed with
  | whole packets finished bytes => exact ⟨packets, Or.inl bytes⟩
  | within packets thread packet own others sized bytes =>
      refine ⟨packets, Or.inr ⟨packet, ⟨thread, ?_⟩, bytes⟩⟩
      have missing : packet ∈ s.unfinished thread := by
        rw [own]
        exact List.mem_cons_self
      rcases List.mem_filterMap.mp missing with ⟨op, member, same⟩
      cases op with
      | sendPayload other =>
          simp only [Op.unfinished] at same
          split at same <;> cases same
          exact member
      | _ => cases same

/-! ## A few threads -/

/-- What the condition asks of a few threads that are alone, as a test. -/
def among (threads : List Nat) (s : Socket) (event : Event) : Bool :=
  threads.contains event.thread &&
    match event with
    | .call _ (.send _) | .call _ (.burstSend _) => false
    | .step thread _ =>
        match (s.stack thread).head? with
        | some (.sendHeader packet) =>
            decide (packet.size < 2 ^ 32) && threads.all fun other => (s.unfinished other).isEmpty
        | some (.sendPayload packet) => decide (packet.size ≤ s.writeBuffer.space)
        | _ => true
    | _ => true

variable {threads : List Nat}

theorem wholePackets_of_among {event : Event} (test : among threads s event = true)
    (others : forall other, other ∉ threads -> s.stack other = []) : s.WholePackets event := by
  rcases Bool.and_eq_true_iff.mp test with ⟨own, condition⟩
  cases event with
  | call number entry =>
      cases entry with
      | send bytes => cases condition
      | burstSend bytes => cases condition
      | _ => trivial
  | step number succeeds =>
      constructor
      · intro packet first _
        simp only [first, Bool.and_eq_true, decide_eq_true_eq, List.all_eq_true,
          List.isEmpty_iff] at condition
        refine ⟨condition.1, ?_⟩
        intro other
        by_cases here : other ∈ threads
        · exact condition.2 other here
        · rw [unfinished, others other here]
          rfl
      · intro packet first
        simpa only [first, decide_eq_true_eq] using condition
  | _ => trivial

/-- A run of a few threads. -/
theorem run_among {block : List UInt8} {events : List Event}
    (run : Run (Restrict (among threads · · = true) (Stepping next)) (new block) events s) :
    Run (Restrict WholePackets (Stepping next)) (new block) events s ∧
      forall event, event ∈ events -> event.thread ∈ threads := by
  induction run with
  | refl => exact ⟨.refl _, fun _ member => nomatch member⟩
  | snoc earlier last inductionHypothesis =>
      rcases inductionHypothesis with ⟨run, own⟩
      rcases last with ⟨test, taken⟩
      refine ⟨.snoc run ⟨wholePackets_of_among test ?_, taken⟩, ?_⟩
      · intro other apart
        refine run_stack_other run.unrestrict ?_
        rintro event member rfl
        exact apart (own event member)
      · intro event member
        rcases List.mem_append.mp member with old | new_
        · exact own event old
        · rw [List.mem_singleton.mp new_]
          exact List.contains_iff_mem.mp (Bool.and_eq_true_iff.mp test).1

/-- A packet of thread 1, which is called while thread 0 is between its two calls
of `Send`, between two packets of thread 0. -/
def takingTurns : List Event :=
  [.call 0 (.sendPacket ⟨1, [7, 8]⟩), .step 0 true, .step 0 true, .step 0 true, .step 0 true,
    .call 1 (.sendPacket ⟨2, [9]⟩), .step 0 true, .step 0 true, .step 0 true, .step 1 true,
    .step 1 true, .step 1 true, .call 0 (.sendPacket ⟨3, []⟩), .step 1 true, .step 1 true,
    .step 1 true, .step 0 true, .step 0 true, .step 0 true, .step 0 true, .step 0 true,
    .step 0 true]

theorem accepted_frames_takingTurns :
    Exists fun s => Exists fun packets =>
      Run (Restrict WholePackets (Stepping next)) (new (List.replicate 32 0)) takingTurns s ∧
      s.accepted.flatten =
        [1, 0, 2, 0, 0, 0, 7, 8, 2, 0, 1, 0, 0, 0, 9, 3, 0, 0, 0, 0, 0] ∧
      (s.accepted.flatten = Framing.stream frame packets ∨
        Exists fun packet => (Exists fun thread => .sendPayload packet ∈ s.stack thread) ∧
          s.accepted.flatten = Framing.stream frame packets ++ packet.header) := by
  have facts : (execute (guarded (among [0, 1] · · = true) next) (new (List.replicate 32 0))
      takingTurns).map (fun s => s.accepted.flatten) =
        some [1, 0, 2, 0, 0, 0, 7, 8, 2, 0, 1, 0, 0, 0, 9, 3, 0, 0, 0, 0, 0] := by
    decide +kernel
  rcases Run.of_guarded_map facts with ⟨s, sends, bytes⟩
  have run := (run_among sends).1
  rcases accepted_frames run with ⟨packets, frames⟩
  exact ⟨s, packets, run, bytes, frames⟩

/-! ## A packet that does not fit -/

theorem perform_payload {bytes : List UInt8} {following : List Op}
    (sends : payload op = some (bytes, following)) (succeeds : Bool) :
    s.perform thread succeeds op = s.lockAndWrite thread bytes following := by
  rcases payload_cases sends with ⟨rfl, rfl⟩ | ⟨packet, rfl, rfl, rfl⟩ | ⟨packet, rfl, rfl, rfl⟩ <;>
    rfl

theorem next_accept {bytes : List UInt8} {following : List Op} {mutex : Mutex}
    (top : s.stack thread = op :: rest) (sends : payload op = some (bytes, following))
    (taken : s.mutex.acquire thread = some mutex) (room : bytes.length ≤ s.writeBuffer.space) :
    s.next (.step thread true) = some (({ s with mutex := mutex }.written bytes).setStack thread
      (.burstPush :: .unlock :: (following ++ rest))) := by
  have accepted := (s.writeBuffer.write_of_room room).1
  simp only [next, top, perform_payload sends, lockAndWrite, taken, Option.map_some, write,
    accepted, if_true, written, List.cons_append]

theorem next_refuse {bytes : List UInt8} {following : List Op} {mutex : Mutex}
    (top : s.stack thread = op :: rest) (sends : payload op = some (bytes, following))
    (taken : s.mutex.acquire thread = some mutex) (full : s.writeBuffer.space < bytes.length) :
    s.next (.step thread true) = some (({ s with mutex := mutex }.refused bytes).setStack thread
      (.unlock :: rest)) := by
  have refused := (s.writeBuffer.write_of_full full).1
  simp only [next, top, perform_payload sends, lockAndWrite, taken, Option.map_some, write,
    refused, Bool.false_eq_true, if_false, Socket.refused, List.singleton_append]

/-- One call of `SendPacket` on a socket that is not connected: the header is
accepted and the payload, which is larger than the buffer, refused. -/
theorem run_torn {block : List UInt8} {packet : PacketBuffer} (room : 6 ≤ block.length)
    (sized : packet.Sized) (large : block.length < packet.size) :
    Exists fun s => Run (Stepping next) (new block)
        (.call 0 (.sendPacket packet) :: List.replicate 6 (.step 0 true)) s ∧
      (forall thread, s.stack thread = []) ∧ s.accepted = [packet.header] := by
  have fits : packet.header.length ≤ (Ring.allocate block).space := by
    rw [Ring.allocate_space, PacketBuffer.header, length_msgHeader]
    exact room
  have full : ((Ring.allocate block).write packet.header).2.space <
      (packet.contents.take (UInt32.ofNat packet.size).toNat).length := by
    have space := ((Ring.allocate block).write packet.header).2.space_le_capacity
    rw [Ring.write_capacity, Ring.allocate_capacity] at space
    rw [sized.toNat_size, PacketBuffer.size, List.take_length]
    exact Nat.lt_of_le_of_lt space large
  have run : Exists fun s => Run (Stepping next) (new block)
      (.call 0 (.sendPacket packet) :: List.replicate 6 (.step 0 true)) s ∧
      s.stack 0 = [] ∧ s.accepted = [packet.header] :=
    ⟨_, .cons rfl (.cons (next_accept rfl rfl rfl fits) (.cons rfl (.cons rfl (.cons rfl
      (.cons (next_refuse rfl rfl rfl full) (.cons rfl (.refl _))))))), rfl, rfl⟩
  rcases run with ⟨s, run, empty, accepted⟩
  refine ⟨s, run, run_idle run ?_, accepted⟩
  apply List.all_eq_true.mpr
  intro event member
  have zero : event.thread = 0 := by
    rcases List.mem_cons.mp member with call | step
    · rw [call]
      rfl
    · rw [List.eq_of_mem_replicate step]
      rfl
  rw [zero, decide_eq_true_eq]
  exact empty

/-- The header of a packet with a payload is not a sequence of frames. -/
theorem header_ne_stream {packet : PacketBuffer} (sized : packet.Sized) (some_ : packet.size ≠ 0)
    (packets : List PacketBuffer) : packet.header ≠ Framing.stream frame packets := by
  intro same
  have length : packet.header.length = 6 := length_msgHeader _ _
  cases packets with
  | nil =>
      rw [same] at length
      cases length
  | cons first packets =>
      rw [Framing.stream_cons] at same
      rw [same, List.length_append, length_frame] at length
      have leads : packet.header <+: frame first ++ Framing.stream frame packets :=
        ⟨[], by rw [List.append_nil, same]⟩
      have headers := header_unique leads
        ((header_isPrefix_frame first).trans (List.prefix_append _ _))
      have none_ : first.size = 0 := by omega
      have zero := sized.toNat_size
      rw [headers.2, none_] at zero
      exact some_ zero.symm

/-- A packet larger than the send buffer leaves its header there. -/
theorem packet_torn :
    Exists fun s => Run (Stepping next) (new (List.replicate sendBufSize 0))
        (.call 0 (.sendPacket ⟨1, List.replicate (sendBufSize + 1) 0⟩) ::
          List.replicate 6 (.step 0 true)) s ∧
      (forall thread, s.stack thread = []) ∧
      forall packets, s.accepted.flatten ≠ Framing.stream frame packets := by
  have size : PacketBuffer.size ⟨1, List.replicate (sendBufSize + 1) 0⟩ = sendBufSize + 1 :=
    List.length_replicate
  have sized : PacketBuffer.Sized ⟨1, List.replicate (sendBufSize + 1) 0⟩ := by
    rw [PacketBuffer.Sized, size]
    decide
  have block : (List.replicate sendBufSize (0 : UInt8)).length = sendBufSize :=
    List.length_replicate
  have room : 6 ≤ (List.replicate sendBufSize (0 : UInt8)).length := by
    rw [block]
    decide
  rcases run_torn room sized (by rw [block, size]; exact Nat.lt_succ_self _) with
    ⟨s, run, idle, accepted⟩
  refine ⟨s, run, idle, ?_⟩
  intro packets
  rw [accepted, List.flatten_singleton]
  exact header_ne_stream sized (by rw [size]; exact Nat.succ_ne_zero _) packets

end Socket
end Iocp
end ServerTech
