import Mathlib.Algebra.Ring.Nat
import Mathlib.Algebra.Ring.Int.Defs
import ServerTech.Foundation.Block
import ServerTech.Foundation.Transition

namespace ServerTech
namespace Kcp

open Transition

/-!
# The TCP socket of the client

`Socket` wraps a stream descriptor.  `send` writes until the message is gone or
the kernel refuses, and `recv` reads until the kernel has nothing more.  What
the kernel answers is input: a call is given together with the results of the
`read` or `write` calls it makes, and it returns only if it makes exactly
those.

Two things are recorded beside the fields of the class, the messages passed to
`send` and the bytes the kernel accepted.
-/

/-! ## Fields -/

/-- `RECV_BUF_SIZE`. -/
def recvBufSize : Nat := 1024 * 8

/-- The fields of `Socket` that its calls use.  Nothing initialises the
receive fields. -/
structure Socket where
  fd : Int
  recvBuffer : List UInt8
  recvSize : UInt32
  allocated : recvBuffer.length = recvBufSize

namespace Socket

/-- The `getRecvSize()` bytes at `getRecvBuffer()`. -/
def content (socket : Socket) : List UInt8 :=
  socket.recvBuffer.take socket.recvSize.toNat

def close (socket : Socket) : Socket :=
  { socket with fd := -1 }

end Socket

/-! ## Receiving -/

/-- The bytes of one successful `read`. -/
structure Chunk where
  bytes : List UInt8
  nonempty : bytes ≠ []
  fits : bytes.length ≤ recvBufSize

/-- What `read` may answer: bytes, `EINTR`, `EAGAIN` or `EWOULDBLOCK`, the end
of the stream, or another error. -/
inductive ReadResult
  | data (chunk : Chunk)
  | interrupted
  | again
  | eof
  | error

namespace Socket

/-- Bytes go to the start of the buffer, wherever earlier ones are. -/
def received (socket : Socket) (chunk : Chunk) : Socket where
  fd := socket.fd
  recvBuffer := Block.overwrite socket.recvBuffer 0 chunk.bytes
  recvSize := UInt32.ofNat chunk.bytes.length
  allocated := by
    rw [Block.length_overwrite, socket.allocated]
    rw [Nat.zero_add, socket.allocated]
    exact chunk.fits

/-- The buffer as `recv` clears it. -/
def cleared (socket : Socket) : Socket where
  fd := socket.fd
  recvBuffer := List.replicate recvBufSize 0
  recvSize := 0
  allocated := List.length_replicate

/-- The loop of `recv`. -/
def recvLoop : Socket -> List ReadResult -> Option Socket
  | _, [] => none
  | socket, .data chunk :: results => recvLoop (socket.received chunk) results
  | socket, .interrupted :: results => recvLoop socket results
  | socket, [.again] => some socket
  | socket, [.eof] => some socket.close
  | socket, [.error] => some socket
  | _, _ :: _ :: _ => none

def recv (socket : Socket) (results : List ReadResult) : Option Socket :=
  if socket.fd ≤ 0 then
    match results with
    | [] => some socket
    | _ :: _ => none
  else recvLoop socket.cleared results

end Socket

/-! ## Sending -/

/-- A message with its size in 32 bits. -/
structure Message where
  data : List UInt8
  small : data.length < 2 ^ 32

/-- What `write` may answer: a number of bytes, `EINTR`, `EAGAIN`, or another
error. -/
inductive WriteResult
  | accepted (count : Nat)
  | interrupted
  | again
  | error

/-- A `uint32_t` as an `int`. -/
def toInt (size : Nat) : Int :=
  if size < 2 ^ 31 then size else (size : Int) - 2 ^ 32

/-- The loop of `send`, with the bytes the kernel takes.  A `write` accepts no
more than it is offered. -/
def sendLoop (data : List UInt8) : Int -> List WriteResult -> Option (List UInt8)
  | dataLeft, [] => if 0 < dataLeft then none else some []
  | dataLeft, result :: results =>
      if 0 < dataLeft then
        match result with
        | .accepted count =>
            if (count : Int) ≤ dataLeft then
              (sendLoop data (dataLeft - count) results).map fun rest =>
                Block.slice data (data.length - dataLeft.toNat) count ++ rest
            else none
        | .interrupted => sendLoop data dataLeft results
        | .again | .error => if results.isEmpty then some [] else none
      else none

/-- `send`, with the bytes the kernel takes. -/
def Socket.send (socket : Socket) (message : Message) (results : List WriteResult) :
    Option (List UInt8) :=
  if socket.fd ≤ 0 then if results.isEmpty then some [] else none
  else sendLoop message.data (toInt message.data.length) results

/-! ## Runs -/

/-- A call with the answers of the kernel during it. -/
inductive SocketCall
  | send (message : Message) (results : List WriteResult)
  | recv (results : List ReadResult)
  | close

/-- A socket with the messages passed to it and the bytes the kernel accepted. -/
structure Stream where
  socket : Socket
  messages : List (List UInt8)
  accepted : List UInt8

def Stream.next (stream : Stream) : SocketCall -> Option Stream
  | .send message results =>
      (stream.socket.send message results).map fun bytes =>
        { stream with
          messages := stream.messages ++ [message.data]
          accepted := stream.accepted ++ bytes }
  | .recv results =>
      (stream.socket.recv results).map fun socket => { stream with socket := socket }
  | .close => some { stream with socket := stream.socket.close }

/-! ## What a call of `recv` keeps -/

/-- The bytes of the successful reads. -/
def chunks : List ReadResult -> List (List UInt8)
  | [] => []
  | .data chunk :: results => chunk.bytes :: chunks results
  | .interrupted :: results => chunks results
  | .again :: results => chunks results
  | .eof :: results => chunks results
  | .error :: results => chunks results

theorem chunks_nonempty (results : List ReadResult) : [] ∉ chunks results := by
  induction results with
  | nil => exact List.not_mem_nil
  | cons result results inductionHypothesis =>
      cases result with
      | data chunk =>
          intro member
          rcases List.mem_cons.mp member with empty | later
          · exact chunk.nonempty empty.symm
          · exact inductionHypothesis later
      | interrupted => exact inductionHypothesis
      | again => exact inductionHypothesis
      | eof => exact inductionHypothesis
      | error => exact inductionHypothesis

theorem received_content (socket : Socket) (chunk : Chunk) :
    (socket.received chunk).content = chunk.bytes := by
  have inside : 0 + chunk.bytes.length ≤ socket.recvBuffer.length := by
    rw [Nat.zero_add, socket.allocated]
    exact chunk.fits
  have written := Block.slice_overwrite socket.recvBuffer inside
  have fits := chunk.fits
  unfold recvBufSize at fits
  have size_eq : (UInt32.ofNat chunk.bytes.length).toNat = chunk.bytes.length :=
    UInt32.toNat_ofNat_of_lt' (Nat.lt_of_le_of_lt fits (by decide))
  rw [Block.slice, List.drop_zero] at written
  simp only [Socket.content, Socket.received, size_eq]
  exact written

/-- Only the bytes of the last successful read are left. -/
theorem recvLoop_content {socket after : Socket} {results : List ReadResult}
    (returned : socket.recvLoop results = some after) :
    after.content = (chunks results).getLastD socket.content := by
  fun_induction Socket.recvLoop socket results with
  | case1 => cases returned
  | case2 socket chunk results inductionHypothesis =>
      rw [inductionHypothesis returned, received_content, chunks, List.getLastD_cons]
  | case3 socket results inductionHypothesis => exact inductionHypothesis returned
  | case4 socket =>
      cases returned
      rfl
  | case5 socket =>
      cases returned
      rfl
  | case6 socket =>
      cases returned
      rfl
  | case7 => cases returned

/-- The last of several pieces is the whole only if there are no others. -/
theorem getLastD_eq_flatten_iff {α : Type} {pieces : List (List α)} (nonempty : [] ∉ pieces) :
    pieces.getLastD [] = pieces.flatten <-> pieces.length ≤ 1 := by
  rcases List.eq_nil_or_concat pieces with rfl | ⟨others, last, rfl⟩
  · exact ⟨fun _ => Nat.zero_le 1, fun _ => rfl⟩
  · rw [List.concat_eq_append] at nonempty ⊢
    rw [List.getLastD_concat, List.flatten_append, List.flatten_singleton, List.length_append,
      List.length_singleton]
    constructor
    · intro same
      have nothing : others.flatten = [] := List.append_left_eq_self.mp same.symm
      cases others with
      | nil => exact Nat.le_refl 1
      | cons first others =>
          have empty : first = [] := List.flatten_eq_nil_iff.mp nothing first
            (List.mem_cons_self ..)
          exact absurd (List.mem_append_left _ (List.mem_cons.mpr (.inl empty.symm))) nonempty
    · intro single
      rw [List.length_eq_zero_iff.mp (Nat.le_zero.mp (Nat.le_of_succ_le_succ single))]
      rfl

/-- After the call, the receive fields hold exactly the bytes the kernel handed
over during it.  Bytes that were taken and are not there are lost. -/
def Kept (after : Socket) (results : List ReadResult) : Prop :=
  after.content = (chunks results).flatten

/-- At most one successful read, or, on a closed socket, nothing left over from
an earlier call. -/
def ReadsOnce (socket : Socket) (results : List ReadResult) : Prop :=
  if socket.fd ≤ 0 then socket.recvSize = 0 else (chunks results).length ≤ 1

instance readsOnceDecidable (socket : Socket) (results : List ReadResult) :
    Decidable (ReadsOnce socket results) :=
  inferInstanceAs (Decidable
    (if socket.fd ≤ 0 then socket.recvSize = 0 else (chunks results).length ≤ 1))

theorem content_eq_nil_iff (socket : Socket) : socket.content = [] <-> socket.recvSize = 0 := by
  rw [Socket.content, List.take_eq_nil_iff]
  constructor
  · intro either
    rcases either with zero | empty
    · exact UInt32.toNat_inj.mp zero
    · have length := socket.allocated
      rw [empty] at length
      exact absurd length (by decide)
  · intro zero
    rw [zero]
    exact .inl rfl

theorem recv_kept_iff {socket after : Socket} {results : List ReadResult}
    (returned : socket.recv results = some after) :
    Kept after results <-> ReadsOnce socket results := by
  unfold Kept ReadsOnce
  unfold Socket.recv at returned
  by_cases closed : socket.fd ≤ 0
  · rw [if_pos closed] at returned ⊢
    cases results with
    | nil =>
        cases returned
        exact content_eq_nil_iff socket
    | cons result results => cases returned
  · rw [if_neg closed] at returned ⊢
    rw [recvLoop_content returned]
    exact getLastD_eq_flatten_iff (chunks_nonempty results)

/-- The steps after which the receive fields are as they should be. -/
def KeepingStep (before : Stream) (call : SocketCall) (after : Stream) : Prop :=
  before.next call = some after ∧
    match call with
    | .recv results => Kept after.socket results
    | _ => True

/-- The condition on a step: every call of `recv` reads once. -/
def ReadsOnceStep (stream : Stream) : SocketCall -> Prop
  | .recv results => ReadsOnce stream.socket results
  | _ => True

instance readsOnceStepDecidable (stream : Stream) (call : SocketCall) :
    Decidable (ReadsOnceStep stream call) :=
  match call with
  | .recv results => readsOnceDecidable stream.socket results
  | .send _ _ => isTrue trivial
  | .close => isTrue trivial

theorem keepingStep_iff (before : Stream) (call : SocketCall) (after : Stream) :
    KeepingStep before call after <-> Restrict ReadsOnceStep (Stepping Stream.next) before call after := by
  cases call with
  | send message results => exact and_comm
  | close => exact and_comm
  | recv results =>
      constructor
      · rintro ⟨taken, kept⟩
        rcases Option.map_eq_some_iff.mp taken with ⟨socket, returned, rfl⟩
        exact ⟨(recv_kept_iff returned).mp kept, taken⟩
      · rintro ⟨once, taken⟩
        rcases Option.map_eq_some_iff.mp taken with ⟨socket, returned, rfl⟩
        exact ⟨taken, (recv_kept_iff returned).mpr once⟩

/-- The runs in which every call of `recv` keeps what it reads are the runs in
which every call of `recv` reads once. -/
theorem run_keeps_iff (start : Stream) (calls : List SocketCall) (final : Stream) :
    Run KeepingStep start calls final <->
      Run (Restrict ReadsOnceStep (Stepping Stream.next)) start calls final := by
  have same : KeepingStep = Restrict ReadsOnceStep (Stepping Stream.next) := by
    funext before call after
    exact propext (keepingStep_iff before call after)
  rw [same]

/-- A connected socket on which nothing has been received. -/
def connected : Socket where
  fd := 3
  recvBuffer := List.replicate recvBufSize 0
  recvSize := 0
  allocated := List.length_replicate

theorem Chunk.single_nonempty (byte : UInt8) : [byte] ≠ [] :=
  List.cons_ne_nil _ _

/-- One byte from the kernel. -/
def Chunk.single (byte : UInt8) : Chunk where
  bytes := [byte]
  nonempty := single_nonempty byte
  fits := Nat.succ_le_of_lt (by decide)

/-- Two reads in one call leave the bytes of the second, and a call on the
socket that the end of the stream has closed shows the last bytes again. -/
theorem recv_loses_bytes :
    (Exists fun after => connected.recv [.data (.single 1), .data (.single 2), .again] = some after ∧
      after.content = [2] ∧
      ¬ Kept after [.data (.single 1), .data (.single 2), .again]) ∧
    (Exists fun middle => Exists fun after =>
      connected.recv [.data (.single 1), .eof] = some middle ∧ middle.recv [] = some after ∧
      after.content = [1] ∧ ¬ Kept after []) := by
  refine ⟨⟨(connected.cleared.received (.single 1)).received (.single 2), rfl, ?_, ?_⟩,
    ⟨(connected.cleared.received (.single 1)).close, (connected.cleared.received (.single 1)).close,
      rfl, rfl, ?_, ?_⟩⟩
  · exact received_content _ _
  · intro kept
    have content := received_content (connected.cleared.received (.single 1)) (.single 2)
    exact absurd (content.symm.trans kept) (by decide)
  · exact received_content _ _
  · intro kept
    have content := received_content connected.cleared (.single 1)
    exact absurd (content.symm.trans kept) (by decide)

/-! ## What the kernel accepts of a sequence of messages -/

/-- The number of bytes the kernel accepts in a call. -/
def acceptedCount : List WriteResult -> Nat
  | [] => 0
  | .accepted count :: results => count + acceptedCount results
  | .interrupted :: results => acceptedCount results
  | .again :: results => acceptedCount results
  | .error :: results => acceptedCount results

/-- A call that ends here makes no further `write` and gets nothing accepted. -/
theorem ended_eq_some {results : List WriteResult} {bytes : List UInt8}
    (returned : (if results.isEmpty then some [] else none) = some bytes) :
    results = [] ∧ bytes = [] := by
  cases results with
  | nil =>
      cases returned
      exact ⟨rfl, rfl⟩
  | cons result results => cases returned

/-- The loop sends from the first byte that is left, without a gap. -/
theorem sendLoop_takes {data bytes : List UInt8} {dataLeft : Int} {results : List WriteResult}
    (bound : dataLeft.toNat ≤ data.length) (returned : sendLoop data dataLeft results = some bytes) :
    bytes <+: data.drop (data.length - dataLeft.toNat) ∧ bytes.length = acceptedCount results := by
  induction results generalizing dataLeft bytes with
  | nil =>
      rw [sendLoop] at returned
      by_cases pending : 0 < dataLeft
      · rw [if_pos pending] at returned
        cases returned
      · rw [if_neg pending] at returned
        cases returned
        exact ⟨List.nil_prefix, rfl⟩
  | cons result results inductionHypothesis =>
      unfold sendLoop at returned
      by_cases pending : 0 < dataLeft
      · rw [if_pos pending] at returned
        cases result with
        | accepted count =>
            simp only at returned
            by_cases offered : (count : Int) ≤ dataLeft
            · rw [if_pos offered] at returned
              rcases Option.map_eq_some_iff.mp returned with ⟨rest, later, rfl⟩
              have place : data.length - (dataLeft - count).toNat =
                  data.length - dataLeft.toNat + count := by omega
              rcases inductionHypothesis (by omega) later with ⟨taken, counted⟩
              rw [place] at taken
              refine ⟨?_, ?_⟩
              · rw [← List.take_append_drop count (data.drop (data.length - dataLeft.toNat)),
                  List.drop_drop]
                exact (List.prefix_append_right_inj _).mpr taken
              · rw [List.length_append, Block.length_slice _ (by omega), counted]
                rfl
            · rw [if_neg offered] at returned
              cases returned
        | interrupted => exact inductionHypothesis bound returned
        | again =>
            rcases ended_eq_some returned with ⟨rfl, rfl⟩
            exact ⟨List.nil_prefix, rfl⟩
        | error =>
            rcases ended_eq_some returned with ⟨rfl, rfl⟩
            exact ⟨List.nil_prefix, rfl⟩
      · rw [if_neg pending] at returned
        cases returned

theorem toInt_toNat_le (size : Nat) : (toInt size).toNat ≤ size := by
  unfold toInt
  split <;> omega

/-- A call of `send` gets a prefix of its message accepted. -/
theorem send_takes {socket : Socket} {message : Message} {results : List WriteResult}
    {bytes : List UInt8} (returned : socket.send message results = some bytes) :
    bytes <+: message.data ∧ bytes.length = acceptedCount results := by
  rw [Socket.send] at returned
  by_cases closed : socket.fd ≤ 0
  · rw [if_pos closed] at returned
    rcases ended_eq_some returned with ⟨rfl, rfl⟩
    exact ⟨List.nil_prefix, rfl⟩
  · rw [if_neg closed] at returned
    rcases sendLoop_takes (toInt_toNat_le _) returned with ⟨taken, counted⟩
    refine ⟨?_, counted⟩
    by_cases signed : message.data.length < 2 ^ 31
    · rw [toInt, if_pos signed, Int.toNat_natCast, Nat.sub_self, List.drop_zero] at taken
      exact taken
    · have negative : (toInt message.data.length).toNat = 0 := by
        have small := message.small
        rw [toInt, if_neg signed]
        omega
      rw [negative, Nat.sub_zero, List.drop_length] at taken
      rw [List.prefix_nil.mp taken]
      exact List.nil_prefix

/-- A socket to which nothing has been passed. -/
def Stream.fresh (socket : Socket) : Stream :=
  ⟨socket, [], []⟩

/-- What the kernel has accepted is a prefix of the messages. -/
def Stream.Intact (stream : Stream) : Prop :=
  stream.accepted <+: stream.messages.flatten

/-- What ends the loop of `send` before its message is gone. -/
def WriteResult.refuses : WriteResult -> Bool
  | .again | .error => true
  | .accepted _ | .interrupted => false

/-- Without a refusal the loop goes on until everything is accepted. -/
theorem sendLoop_counts {data bytes : List UInt8} {dataLeft : Int} {results : List WriteResult}
    (natural : 0 ≤ dataLeft) (returned : sendLoop data dataLeft results = some bytes) :
    if results.any WriteResult.refuses then (acceptedCount results : Int) < dataLeft
    else (acceptedCount results : Int) = dataLeft := by
  induction results generalizing dataLeft bytes with
  | nil =>
      rw [sendLoop] at returned
      by_cases pending : 0 < dataLeft
      · rw [if_pos pending] at returned
        cases returned
      · exact Int.le_antisymm natural (Int.not_lt.mp pending)
  | cons result results inductionHypothesis =>
      unfold sendLoop at returned
      by_cases pending : 0 < dataLeft
      · rw [if_pos pending] at returned
        cases result with
        | accepted count =>
            simp only at returned
            by_cases offered : (count : Int) ≤ dataLeft
            · rw [if_pos offered] at returned
              rcases Option.map_eq_some_iff.mp returned with ⟨rest, later, rfl⟩
              have counted := inductionHypothesis (Int.sub_nonneg_of_le offered) later
              rw [List.any_cons, WriteResult.refuses, Bool.false_or, acceptedCount, Nat.cast_add]
              split
              · rename_i refused
                rw [if_pos refused] at counted
                omega
              · rename_i whole
                rw [if_neg whole] at counted
                omega
            · rw [if_neg offered] at returned
              cases returned
        | interrupted => exact inductionHypothesis natural returned
        | again =>
            rcases ended_eq_some returned with ⟨rfl, rfl⟩
            exact pending
        | error =>
            rcases ended_eq_some returned with ⟨rfl, rfl⟩
            exact pending
      · rw [if_neg pending] at returned
        cases returned

/-- A call leaves bytes behind if a write is refused, if the size is no `int`,
and on a closed socket. -/
def Socket.leavesBytes (socket : Socket) (message : Message) (results : List WriteResult) : Bool :=
  results.any WriteResult.refuses || decide (2 ^ 31 ≤ message.data.length) ||
    (decide (socket.fd ≤ 0) && !message.data.isEmpty)

theorem leavesBytes_closed {socket : Socket} (closed : socket.fd ≤ 0) (message : Message) :
    socket.leavesBytes message [] = !message.data.isEmpty := by
  rw [Socket.leavesBytes, decide_eq_true closed, Bool.true_and, List.any_nil, Bool.false_or]
  cases empty : message.data with
  | nil => rfl
  | cons first rest => exact Bool.or_true _

theorem leavesBytes_open {socket : Socket} (opened : ¬ socket.fd ≤ 0) (message : Message)
    (results : List WriteResult) :
    socket.leavesBytes message results =
      (results.any WriteResult.refuses || decide (2 ^ 31 ≤ message.data.length)) := by
  rw [Socket.leavesBytes, decide_eq_false opened, Bool.false_and, Bool.or_false]

/-- A size that is no `int` stops the loop at once. -/
theorem sendLoop_negative {data bytes : List UInt8} {dataLeft : Int} {results : List WriteResult}
    (negative : dataLeft < 0) (returned : sendLoop data dataLeft results = some bytes) :
    bytes = [] := by
  have stopped := Int.not_lt.mpr (Int.le_of_lt negative)
  cases results with
  | nil =>
      rw [sendLoop, if_neg stopped] at returned
      cases returned
      rfl
  | cons result results =>
      unfold sendLoop at returned
      rw [if_neg stopped] at returned
      cases returned

/-- A call of `send` leaves bytes behind exactly if the kernel accepts less than
the message. -/
theorem send_length {socket : Socket} {message : Message} {results : List WriteResult}
    {bytes : List UInt8} (returned : socket.send message results = some bytes) :
    if socket.leavesBytes message results then bytes.length < message.data.length
    else bytes.length = message.data.length := by
  rw [Socket.send] at returned
  by_cases closed : socket.fd ≤ 0
  · rw [if_pos closed] at returned
    rcases ended_eq_some returned with ⟨rfl, rfl⟩
    rw [leavesBytes_closed closed]
    cases message.data with
    | nil => rfl
    | cons first rest => exact Nat.zero_lt_succ _
  · rw [if_neg closed] at returned
    rw [leavesBytes_open closed]
    by_cases signed : message.data.length < 2 ^ 31
    · have counted := sendLoop_takes (toInt_toNat_le _) returned
      rw [toInt, if_pos signed] at returned
      have total := sendLoop_counts (Int.natCast_nonneg _) returned
      rw [decide_eq_false (Nat.not_le.mpr signed), Bool.or_false, counted.2]
      split
      · rename_i refused
        rw [if_pos refused] at total
        exact Int.ofNat_lt.mp total
      · rename_i whole
        rw [if_neg whole] at total
        exact Int.ofNat_inj.mp total
    · have long := Nat.not_lt.mp signed
      have negative : toInt message.data.length < 0 := by
        have small := message.small
        rw [toInt, if_neg signed]
        omega
      rw [decide_eq_true long, Bool.or_true, if_pos rfl, sendLoop_negative negative returned]
      exact Nat.lt_of_lt_of_le (by decide) long

/-- The stream, and whether a call of `send` has left bytes behind. -/
structure SendRecord where
  stream : Stream
  cut : Bool

namespace SendRecord

def next (o : SendRecord) (call : SocketCall) : Option SendRecord :=
  (o.stream.next call).map fun stream =>
    { stream := stream
      cut := o.cut || match call with
        | .send message results => o.stream.socket.leavesBytes message results
        | .recv _ | .close => false }

/-- The condition on a call: after a call that has left bytes behind, the kernel
accepts nothing any more. -/
def Unbroken (o : SendRecord) : SocketCall -> Prop
  | .send _ results => o.cut = false ∨ acceptedCount results = 0
  | .recv _ | .close => True

instance unbrokenDecidable (o : SendRecord) (call : SocketCall) : Decidable (o.Unbroken call) :=
  match call with
  | .send _ results => inferInstanceAs (Decidable (o.cut = false ∨ acceptedCount results = 0))
  | .recv _ | .close => isTrue trivial

/-- A socket to which nothing has been passed. -/
def fresh (socket : Socket) : SendRecord :=
  ⟨.fresh socket, false⟩

/-- All messages are accepted, or all up to the first byte that was left. -/
def Sound (o : SendRecord) : Prop :=
  if o.cut then
    Exists fun dropped => Exists fun missing =>
      o.stream.messages.flatten = o.stream.accepted ++ dropped :: missing
  else o.stream.accepted = o.stream.messages.flatten

variable {o following : SendRecord} {message : Message} {results : List WriteResult}

theorem fresh_sound (socket : Socket) : (fresh socket).Sound := by
  rw [Sound, if_neg (show ¬ (fresh socket).cut = true from Bool.false_ne_true)]
  rfl

theorem Sound.intact (sound : o.Sound) : o.stream.Intact := by
  unfold Sound at sound
  split at sound
  · rcases sound with ⟨dropped, missing, whole⟩
    exact ⟨dropped :: missing, whole.symm⟩
  · exact ⟨[], (List.append_nil _).trans sound⟩

/-- What a call of `send` does to the stream and its record. -/
theorem next_send (taken : o.next (.send message results) = some following) :
    Exists fun bytes => o.stream.socket.send message results = some bytes ∧
      following.stream.messages = o.stream.messages ++ [message.data] ∧
      following.stream.accepted = o.stream.accepted ++ bytes ∧
      following.cut = (o.cut || o.stream.socket.leavesBytes message results) := by
  rcases Option.map_eq_some_iff.mp taken with ⟨stream, moved, rfl⟩
  rcases Option.map_eq_some_iff.mp moved with ⟨bytes, returned, rfl⟩
  exact ⟨bytes, returned, rfl, rfl, rfl⟩

/-- Behind complete messages the whole message is accepted, or all of it up to
the first byte that is left. -/
theorem send_sound (sound : o.Sound) (whole : o.cut = false)
    (taken : o.next (.send message results) = some following) : following.Sound := by
  rcases next_send taken with ⟨bytes, returned, messages, accepted, cut⟩
  rcases (send_takes returned).1 with ⟨rest, parts⟩
  have lengths := send_length returned
  rw [Sound, whole, if_neg Bool.false_ne_true] at sound
  rw [Sound, cut, whole, Bool.false_or, messages, accepted, List.flatten_append,
    List.flatten_singleton, sound, ← parts]
  split
  · rename_i left_
    rw [if_pos left_, ← parts, List.length_append] at lengths
    cases rest with
    | nil => exact absurd lengths (Nat.lt_irrefl _)
    | cons dropped missing => exact ⟨dropped, missing, (List.append_assoc _ _ _).symm⟩
  · rename_i complete
    rw [if_neg complete, ← parts, List.length_append] at lengths
    have nothing : rest = [] := List.length_eq_zero_iff.mp (by omega)
    rw [nothing, List.append_nil]

/-- A call that gets nothing accepted leaves the first missing byte as it is. -/
theorem refused_sound (sound : o.Sound) (cut : o.cut = true) (refused : acceptedCount results = 0)
    (taken : o.next (.send message results) = some following) : following.Sound := by
  rcases next_send taken with ⟨bytes, returned, messages, accepted, record⟩
  rw [Sound, cut, if_pos rfl] at sound
  rcases sound with ⟨dropped, missing, whole⟩
  have nothing : bytes = [] := List.length_eq_zero_iff.mp ((send_takes returned).2.trans refused)
  rw [Sound, record, cut, Bool.true_or, if_pos rfl]
  refine ⟨dropped, missing ++ message.data, ?_⟩
  rw [messages, accepted, nothing, List.append_nil, List.flatten_append,
    List.flatten_singleton, whole, List.append_assoc, List.cons_append]

theorem step_sound {call : SocketCall} (sound : o.Sound) (unbroken : o.Unbroken call)
    (taken : o.next call = some following) : following.Sound := by
  cases call with
  | send message results =>
      cases cut : o.cut with
      | false => exact send_sound sound cut taken
      | true =>
          rcases unbroken with whole | refused
          · exact absurd (cut.symm.trans whole) Bool.true_eq_false.mp
          · exact refused_sound sound cut refused taken
  | recv results =>
      rcases Option.map_eq_some_iff.mp taken with ⟨stream, moved, rfl⟩
      rcases Option.map_eq_some_iff.mp moved with ⟨socket, _, rfl⟩
      rw [Sound, Bool.or_false]
      exact sound
  | close =>
      cases taken
      rw [Sound, Bool.or_false]
      exact sound

/-- A byte accepted after a call that has left bytes behind stands in the place
of the first one missing. -/
theorem accepted_after (sound : o.Sound) (cut : o.cut = true) (some_ : acceptedCount results ≠ 0)
    (taken : o.next (.send message results) = some following) :
    Exists fun dropped => Exists fun missing => Exists fun first => Exists fun rest =>
      o.stream.messages.flatten = o.stream.accepted ++ dropped :: missing ∧
      following.stream.accepted = o.stream.accepted ++ first :: rest ∧
      (following.stream.Intact -> first = dropped) := by
  rcases next_send taken with ⟨bytes, returned, messages, accepted, _⟩
  rw [Sound, cut, if_pos rfl] at sound
  rcases sound with ⟨dropped, missing, whole⟩
  cases bytes with
  | nil => exact absurd (send_takes returned).2.symm some_
  | cons first rest =>
      refine ⟨dropped, missing, first, rest, whole, accepted, ?_⟩
      intro intact
      rw [Stream.Intact, accepted, messages, List.flatten_append, whole, List.append_assoc] at intact
      have later := (List.prefix_append_right_inj _).mp intact
      exact (List.cons_prefix_cons.mp later).1

/-- Every run of the socket is a run with its record. -/
theorem exists_record {socket : Socket} {calls : List SocketCall} {final : Stream}
    (run : Run (Stepping Stream.next) (.fresh socket) calls final) :
    Exists fun o : SendRecord => o.stream = final ∧ Run (Stepping next) (fresh socket) calls o := by
  induction run with
  | refl => exact ⟨fresh socket, rfl, .refl _⟩
  | snoc _ last inductionHypothesis =>
      rcases inductionHypothesis with ⟨o, rfl, run⟩
      exact ⟨_, rfl, run.snoc (Option.map_eq_some_iff.mpr ⟨_, last, rfl⟩)⟩

/-- In a run in which the kernel accepts nothing after a call that has left
bytes behind, what it has accepted is a prefix of the messages.  A call after
that in which it accepts something puts a byte in the place of the first one
missing. -/
theorem run_intact {socket : Socket} {calls : List SocketCall} {final : SendRecord}
    (run : Run (Restrict Unbroken (Stepping next)) (fresh socket) calls final) :
    final.stream.Intact ∧
    forall (message : Message) (results : List WriteResult) (after : SendRecord),
      final.next (.send message results) = some after -> ¬ final.Unbroken (.send message results) ->
      Exists fun dropped => Exists fun missing => Exists fun first => Exists fun rest =>
        final.stream.messages.flatten = final.stream.accepted ++ dropped :: missing ∧
        after.stream.accepted = final.stream.accepted ++ first :: rest ∧
        (after.stream.Intact -> first = dropped) := by
  have sound : final.Sound := by
    refine @Run.invariant _ _ _ Sound ?_ _ _ _ run (fresh_sound socket)
    rintro before call after held ⟨unbroken, taken⟩
    exact step_sound held unbroken taken
  refine ⟨sound.intact, ?_⟩
  intro message results after taken broken
  rw [Unbroken, not_or, Bool.not_eq_false] at broken
  exact accepted_after sound broken.1 broken.2 taken

end SendRecord

/-- A short message. -/
def Message.ofBytes (data : List UInt8) (short : data.length < 2 ^ 32) : Message :=
  ⟨data, short⟩

/-- A message in two parts with an interruption between them, a message of
which a part is left, and a refused one. -/
theorem SendRecord.run_intact_parts :
    Exists fun final : SendRecord => final.stream.accepted = [1, 2, 3, 4] ∧
      final.stream.messages = [[1, 2], [3], [4, 5], [6]] ∧ final.stream.Intact := by
  have facts : (execute (guarded SendRecord.Unbroken SendRecord.next) (SendRecord.fresh connected)
      [.send (.ofBytes [1, 2] (by decide)) [.accepted 1, .interrupted, .accepted 1],
        .send (.ofBytes [3] (by decide)) [.accepted 1],
        .send (.ofBytes [4, 5] (by decide)) [.accepted 1, .again],
        .send (.ofBytes [6] (by decide)) [.again]]).map
      (fun o => (o.stream.accepted, o.stream.messages)) =
      some ([1, 2, 3, 4], [[1, 2], [3], [4, 5], [6]]) := by
    decide +kernel
  rcases Run.of_guarded_map facts with ⟨final, run, fields⟩
  exact ⟨final, congrArg Prod.fst fields, congrArg Prod.snd fields, (SendRecord.run_intact run).1⟩

/-- The kernel takes one byte of the first message, has no room for the second
byte, and takes the next message. -/
theorem send_cuts_message :
    Exists fun final : Stream =>
      Run (Stepping Stream.next) (Stream.fresh connected)
        [.send (.ofBytes [1, 2] (by decide)) [.accepted 1, .again],
          .send (.ofBytes [3] (by decide)) [.accepted 1]] final ∧
      final.accepted = [1, 3] ∧ final.messages = [[1, 2], [3]] ∧ ¬ final.Intact := by
  have facts : (execute Stream.next (Stream.fresh connected)
      [.send (.ofBytes [1, 2] (by decide)) [.accepted 1, .again],
        .send (.ofBytes [3] (by decide)) [.accepted 1]]).map
      (fun stream => (stream.accepted, stream.messages)) = some ([1, 3], [[1, 2], [3]]) := by
    decide +kernel
  rcases Run.of_execute_map facts with ⟨final, run, fields⟩
  have accepted : final.accepted = [1, 3] := congrArg Prod.fst fields
  have messages : final.messages = [[1, 2], [3]] := congrArg Prod.snd fields
  refine ⟨final, run, accepted, messages, ?_⟩
  rw [Stream.Intact, accepted, messages]
  decide

end Kcp
end ServerTech
