import Mathlib.Logic.Function.Basic
import ServerTech.CircularBuffer.Ring
import ServerTech.Foundation.Mutex
import ServerTech.Foundation.Tally
import ServerTech.Foundation.Transition
import ServerTech.Iocp.Packet

namespace ServerTech
namespace Iocp

open Transition

/-!
# The send path of a socket

Any number of threads call into one socket, and the workers of the completion
port call `HandleWriteComplete`.  A thread is the list of operations it still
has to perform before it returns; performing one may put others in front.  A
step performs one operation of one thread, so the steps of a run interleave in
any order.

An operation is a piece of a function between two points where another thread
can interfere.  `m_writeMutex` protects the write buffer, so taking the mutex
and what follows under it, up to the next access of an unprotected member, is
one operation; giving the mutex back is another.  The mutex is re-entrant, and
`m_writeLock` starts at zero.

The kernel is part of the model: `WSASend` fails or leaves a span of the
buffer outstanding, and a worker dequeues the completion of any part of an
outstanding span, or one with an error status, which `WorkerRun` ignores.  A
worker calls `HandleReadComplete` with any length and with any packets for
`OnRead` to answer; what `OnRead` makes of the bytes is the subject of the
packet reader.
-/

/-- A range of the write buffer given to `WSASend`, with the bytes it held
then. -/
structure Span where
  offset : Nat
  bytes : List UInt8
  deriving DecidableEq, Repr

/-- The operations of the functions of `Socket`, `ServerSocket` and
`SocketMgr`. -/
inductive Op where
  | send (bytes : List UInt8)
  | sendHeader (packet : PacketBuffer)
  | sendPayload (packet : PacketBuffer)
  | unlock
  | burstBegin
  | burstSend (bytes : List UInt8)
  | burstPush
  | writeCallback
  | submit
  | decSendLock
  | handleWriteComplete (len : Nat)
  | remove (len : Nat)
  | handleReadComplete (len : Nat) (replies : List PacketBuffer)
  | setConnected
  | setupReadEvent
  | addSocket
  | disconnect
  | clearConnected
  | delSocket
  | onDisconnect
  | deleteUnlessDeleted
  | delete
  | disconnectIfConnected
  | closeSocket
  deriving DecidableEq, Repr

/-- The members of the socket, what the threads have left to do, and logs: the
outstanding spans, the payloads accepted by the write buffer, the bytes of
completed writes, and whether bytes were accepted since the last push. -/
structure Socket where
  writeBuffer : Ring
  writeLock : Int
  mutex : Mutex
  connected : Bool
  deleted : Bool
  registered : Bool
  disconnects : Nat
  closes : Nat
  inflight : List Span
  accepted : List (List UInt8)
  transferred : List UInt8
  unpushed : Bool
  stack : Nat -> List Op
  bursts : Nat -> Nat

/-- What a thread can call. -/
inductive Entry where
  | send (bytes : List UInt8)
  | sendPacket (packet : PacketBuffer)
  | burstBegin
  | burstSend (bytes : List UInt8)
  | burstPush
  | burstEnd
  | readComplete (len : Nat) (replies : List PacketBuffer)
  | connect
  | disconnect
  | delete
  deriving DecidableEq, Repr

namespace Entry

/-- The operations that a call starts with. -/
def ops : Entry -> List Op
  | send bytes => [.send bytes]
  | sendPacket packet => [.sendHeader packet]
  | burstBegin => [.burstBegin]
  | burstSend bytes => [.burstSend bytes]
  | burstPush => [.burstPush]
  | burstEnd => [.unlock]
  | readComplete len replies => [.handleReadComplete len replies]
  | connect => [.setConnected, .setupReadEvent, .addSocket]
  | disconnect => [.disconnect]
  | delete => [.delete]

/-- The functions that are only called between `BurstBegin` and `BurstEnd`.
`BurstPush` uses the atomic lock only, and may be called outside as well. -/
def insideBurst : Entry -> Bool
  | burstSend _ | burstEnd => true
  | _ => false

end Entry

/-- A call by an idle thread, an operation of a thread with the outcome of the
system call in it, or the completion of an outstanding span, dequeued by an
idle thread. -/
inductive Event where
  | call (thread : Nat) (entry : Entry)
  | step (thread : Nat) (succeeds : Bool)
  | dequeue (thread index len : Nat)
  | dequeueError (thread index : Nat)
  deriving DecidableEq, Repr

/-- The thread that takes the step. -/
def Event.thread : Event -> Nat
  | .call thread _ | .step thread _ | .dequeue thread _ _ | .dequeueError thread _ => thread

namespace Socket

/-- The constructor, with the block of the write buffer. -/
def new (block : List UInt8) : Socket where
  writeBuffer := Ring.allocate block
  writeLock := 0
  mutex := .free
  connected := false
  deleted := false
  registered := false
  disconnects := 0
  closes := 0
  inflight := []
  accepted := []
  transferred := []
  unpushed := false
  stack := fun _ => []
  bursts := fun _ => 0

/-- `m_writeBuffer.Write`, with the log of what was accepted. -/
def write (s : Socket) (bytes : List UInt8) : Bool × Socket :=
  let result := s.writeBuffer.write bytes
  if result.1 then
    (true, { s with
      writeBuffer := result.2
      accepted := s.accepted ++ [bytes]
      unpushed := true })
  else (false, { s with writeBuffer := result.2 })

/-- The body of `Send`, and what the caller does when it returns true. -/
def lockAndWrite (s : Socket) (thread : Nat) (bytes : List UInt8) (following : List Op) :
    Option (Socket × List Op) :=
  (s.mutex.acquire thread).map fun mutex =>
    let result := { s with mutex := mutex }.write bytes
    if result.1 then (result.2, .burstPush :: .unlock :: following) else (result.2, [.unlock])

/-- The span that the contiguous bytes of the write buffer make. -/
def span (s : Socket) : Span where
  offset := s.writeBuffer.getBufferStart.getD 0
  bytes := Block.slice s.writeBuffer.buffer.memory (s.writeBuffer.getBufferStart.getD 0)
    s.writeBuffer.getContiguiousBytes

/-- Perform an operation of a thread: the socket afterwards, and what the
thread has to do before what it had to do anyway.  There is no result while
the mutex is held by another thread. -/
def perform (s : Socket) (thread : Nat) (succeeds : Bool) : Op -> Option (Socket × List Op)
  | .send bytes => s.lockAndWrite thread bytes []
  | .sendHeader packet =>
      s.lockAndWrite thread (msgHeader packet.opcode (UInt32.ofNat packet.size))
        [.sendPayload packet]
  | .sendPayload packet =>
      s.lockAndWrite thread (packet.contents.take (UInt32.ofNat packet.size).toNat) []
  | .unlock => some ({ s with mutex := s.mutex.release }, [])
  | .burstBegin =>
      (s.mutex.acquire thread).map fun mutex =>
        ({ s with
          mutex := mutex
          bursts := Function.update s.bursts thread (s.bursts thread + 1) }, [])
  | .burstSend bytes => some ((s.write bytes).2, [])
  | .burstPush =>
      if s.writeLock = 0 then
        some ({ s with writeLock := 1, unpushed := false }, [.writeCallback])
      else some ({ s with writeLock := 1, unpushed := false }, [])
  | .writeCallback => if s.deleted ∨ ¬ s.connected then some (s, []) else some (s, [.submit])
  | .submit =>
      (s.mutex.acquire thread).map fun mutex =>
        if s.writeBuffer.getContiguiousBytes ≠ 0 then
          if succeeds then
            ({ s with mutex := mutex, inflight := s.inflight ++ [s.span] }, [.unlock])
          else ({ s with mutex := mutex }, [.decSendLock, .disconnect, .unlock])
        else ({ s with mutex := mutex }, [.decSendLock, .unlock])
  | .decSendLock => some ({ s with writeLock := s.writeLock - 1 }, [])
  | .handleWriteComplete len => if s.deleted then some (s, []) else some (s, [.remove len])
  | .remove len =>
      (s.mutex.acquire thread).map fun mutex =>
        ({ s with mutex := mutex, writeBuffer := s.writeBuffer.remove len },
          if 0 < (s.writeBuffer.remove len).getContiguiousBytes then [.writeCallback, .unlock]
          else [.decSendLock, .unlock])
  | .handleReadComplete len replies =>
      if s.deleted then some (s, [])
      else if len ≠ 0 then some (s, replies.map .sendHeader ++ [.setupReadEvent])
      else some (s, [.delete])
  | .setConnected => some ({ s with connected := true }, [])
  | .setupReadEvent =>
      if s.deleted ∨ ¬ s.connected then some (s, [])
      else if succeeds then some (s, [])
      else some (s, [.disconnect])
  | .addSocket => some ({ s with registered := true }, [])
  | .disconnect =>
      if s.connected then
        some (s, [.clearConnected, .delSocket, .onDisconnect, .deleteUnlessDeleted])
      else some (s, [])
  | .clearConnected => some ({ s with connected := false }, [])
  | .delSocket => some ({ s with registered := false }, [])
  | .onDisconnect => some ({ s with disconnects := s.disconnects + 1 }, [])
  | .deleteUnlessDeleted => if s.deleted then some (s, []) else some (s, [.delete])
  | .delete =>
      if s.deleted then some ({ s with deleted := true }, [.disconnectIfConnected, .closeSocket])
      else some (s, [])
  | .disconnectIfConnected => if s.connected then some (s, [.disconnect]) else some (s, [])
  | .closeSocket => some ({ s with closes := s.closes + 1 }, [])

/-- Replace the list of a thread. -/
def setStack (s : Socket) (thread : Nat) (ops : List Op) : Socket :=
  { s with stack := Function.update s.stack thread ops }

theorem stack_setStack {s after : Socket} (same : after.stack = s.stack) (thread : Nat)
    (ops : List Op) : (after.setStack thread ops).stack = Function.update s.stack thread ops := by
  rw [← same]
  rfl

/-- Start a call.  `BurstEnd` gives the mutex back that `BurstBegin` took. -/
def start (s : Socket) (thread : Nat) (entry : Entry) : Option Socket :=
  if entry.insideBurst ∧ s.bursts thread = 0 then none
  else
    some { s.setStack thread entry.ops with
      bursts :=
        if entry = .burstEnd then Function.update s.bursts thread (s.bursts thread - 1)
        else s.bursts }

def next (s : Socket) : Event -> Option Socket
  | .call thread entry => if s.stack thread = [] then s.start thread entry else none
  | .step thread succeeds =>
      match s.stack thread with
      | [] => none
      | op :: rest =>
          (s.perform thread succeeds op).map fun result =>
            result.1.setStack thread (result.2 ++ rest)
  | .dequeue thread index len =>
      match s.stack thread, s.inflight[index]? with
      | [], some span =>
          if 1 ≤ len ∧ len ≤ span.bytes.length then
            some { s.setStack thread [.handleWriteComplete len] with
              inflight := s.inflight.eraseIdx index
              transferred := s.transferred ++ span.bytes.take len }
          else none
      | _, _ => none
  | .dequeueError thread index =>
      match s.stack thread, s.inflight[index]? with
      | [], some _ => some { s with inflight := s.inflight.eraseIdx index }
      | _, _ => none

/-! ## What an operation can do -/

/-- The bytes that an operation sends through `Send`, and what the caller does
when it returns true. -/
def payload : Op -> Option (List UInt8 × List Op)
  | .send bytes => some (bytes, [])
  | .sendHeader packet =>
      some (msgHeader packet.opcode (UInt32.ofNat packet.size), [.sendPayload packet])
  | .sendPayload packet => some (packet.contents.take (UInt32.ofNat packet.size).toNat, [])
  | _ => none

theorem payload_cases {op : Op} {bytes : List UInt8} {following : List Op}
    (sends : payload op = some (bytes, following)) :
    (op = .send bytes ∧ following = []) ∨
      (Exists fun packet => op = .sendHeader packet ∧
        bytes = msgHeader packet.opcode (UInt32.ofNat packet.size) ∧
        following = [.sendPayload packet]) ∨
      Exists fun packet => op = .sendPayload packet ∧
        bytes = packet.contents.take (UInt32.ofNat packet.size).toNat ∧ following = [] := by
  cases op with
  | send _ =>
      cases sends
      exact Or.inl ⟨rfl, rfl⟩
  | sendHeader packet =>
      cases sends
      exact Or.inr (Or.inl ⟨packet, rfl, rfl, rfl⟩)
  | sendPayload packet =>
      cases sends
      exact Or.inr (Or.inr ⟨packet, rfl, rfl, rfl⟩)
  | _ => cases sends

/-- Bytes that were accepted by the write buffer. -/
def written (s : Socket) (bytes : List UInt8) : Socket :=
  { s with
    writeBuffer := (s.writeBuffer.write bytes).2
    accepted := s.accepted ++ [bytes]
    unpushed := true }

/-- Bytes that were refused.  The attempt may still open region B. -/
def refused (s : Socket) (bytes : List UInt8) : Socket :=
  { s with writeBuffer := (s.writeBuffer.write bytes).2 }

theorem write_eq (s : Socket) (bytes : List UInt8) :
    (bytes.length ≤ s.writeBuffer.space ∧ s.write bytes = (true, s.written bytes)) ∨
      (s.writeBuffer.space < bytes.length ∧ s.write bytes = (false, s.refused bytes)) := by
  by_cases room : bytes.length ≤ s.writeBuffer.space
  · left
    refine ⟨room, ?_⟩
    simp only [write, (s.writeBuffer.write_of_room room).1, if_true, written]
  · right
    have full := Nat.not_le.mp room
    refine ⟨full, ?_⟩
    simp only [write, (s.writeBuffer.write_of_full full).1, Bool.false_eq_true, if_false, refused]

/-- The outcomes of the operations, one constructor for each path. -/
inductive Performs (s : Socket) (thread : Nat) : Op -> Socket -> List Op -> Prop
  | accept {op : Op} {bytes : List UInt8} {following : List Op} {mutex : Mutex}
      (sends : payload op = some (bytes, following))
      (taken : s.mutex.acquire thread = some mutex)
      (room : bytes.length ≤ s.writeBuffer.space) :
      Performs s thread op ({ s with mutex := mutex }.written bytes)
        (.burstPush :: .unlock :: following)
  | refuse {op : Op} {bytes : List UInt8} {following : List Op} {mutex : Mutex}
      (sends : payload op = some (bytes, following))
      (taken : s.mutex.acquire thread = some mutex)
      (full : s.writeBuffer.space < bytes.length) :
      Performs s thread op ({ s with mutex := mutex }.refused bytes) [.unlock]
  | unlock : Performs s thread .unlock { s with mutex := s.mutex.release } []
  | burstBegin {mutex : Mutex} (taken : s.mutex.acquire thread = some mutex) :
      Performs s thread .burstBegin { s with
        mutex := mutex
        bursts := Function.update s.bursts thread (s.bursts thread + 1) } []
  | burstAccept {bytes : List UInt8} (room : bytes.length ≤ s.writeBuffer.space) :
      Performs s thread (.burstSend bytes) (s.written bytes) []
  | burstRefuse {bytes : List UInt8} (full : s.writeBuffer.space < bytes.length) :
      Performs s thread (.burstSend bytes) (s.refused bytes) []
  | acquired (idle : s.writeLock = 0) :
      Performs s thread .burstPush { s with writeLock := 1, unpushed := false } [.writeCallback]
  | busy (locked : s.writeLock ≠ 0) :
      Performs s thread .burstPush { s with writeLock := 1, unpushed := false } []
  | early (closed : s.deleted ∨ ¬ s.connected) : Performs s thread .writeCallback s []
  | callback (opened : ¬ (s.deleted ∨ ¬ s.connected)) :
      Performs s thread .writeCallback s [.submit]
  | submitted {mutex : Mutex} (taken : s.mutex.acquire thread = some mutex)
      (some_ : s.writeBuffer.getContiguiousBytes ≠ 0) :
      Performs s thread .submit
        { s with mutex := mutex, inflight := s.inflight ++ [s.span] } [.unlock]
  | failed {mutex : Mutex} (taken : s.mutex.acquire thread = some mutex)
      (some_ : s.writeBuffer.getContiguiousBytes ≠ 0) :
      Performs s thread .submit { s with mutex := mutex } [.decSendLock, .disconnect, .unlock]
  | nothing {mutex : Mutex} (taken : s.mutex.acquire thread = some mutex)
      (none_ : s.writeBuffer.getContiguiousBytes = 0) :
      Performs s thread .submit { s with mutex := mutex } [.decSendLock, .unlock]
  | decSendLock : Performs s thread .decSendLock { s with writeLock := s.writeLock - 1 } []
  | ignored {len : Nat} (gone : s.deleted = true) : Performs s thread (.handleWriteComplete len) s []
  | handled {len : Nat} (alive : s.deleted = false) :
      Performs s thread (.handleWriteComplete len) s [.remove len]
  | more {len : Nat} {mutex : Mutex} (taken : s.mutex.acquire thread = some mutex)
      (left_ : 0 < (s.writeBuffer.remove len).getContiguiousBytes) :
      Performs s thread (.remove len)
        { s with mutex := mutex, writeBuffer := s.writeBuffer.remove len } [.writeCallback, .unlock]
  | last {len : Nat} {mutex : Mutex} (taken : s.mutex.acquire thread = some mutex)
      (none_ : (s.writeBuffer.remove len).getContiguiousBytes = 0) :
      Performs s thread (.remove len)
        { s with mutex := mutex, writeBuffer := s.writeBuffer.remove len } [.decSendLock, .unlock]
  | readIgnored {len : Nat} {replies : List PacketBuffer} (gone : s.deleted = true) :
      Performs s thread (.handleReadComplete len replies) s []
  | received {len : Nat} {replies : List PacketBuffer} (alive : s.deleted = false)
      (some_ : len ≠ 0) :
      Performs s thread (.handleReadComplete len replies) s
        (replies.map .sendHeader ++ [.setupReadEvent])
  | readNothing {replies : List PacketBuffer} (alive : s.deleted = false) :
      Performs s thread (.handleReadComplete 0 replies) s [.delete]
  | setConnected : Performs s thread .setConnected { s with connected := true } []
  | noRead : Performs s thread .setupReadEvent s []
  | readFailed (opened : s.connected = true) :
      Performs s thread .setupReadEvent s [.disconnect]
  | addSocket : Performs s thread .addSocket { s with registered := true } []
  | disconnect (opened : s.connected = true) :
      Performs s thread .disconnect s
        [.clearConnected, .delSocket, .onDisconnect, .deleteUnlessDeleted]
  | disconnected (closed : s.connected = false) : Performs s thread .disconnect s []
  | clearConnected : Performs s thread .clearConnected { s with connected := false } []
  | delSocket : Performs s thread .delSocket { s with registered := false } []
  | onDisconnect : Performs s thread .onDisconnect { s with disconnects := s.disconnects + 1 } []
  | deletedAlready (gone : s.deleted = true) : Performs s thread .deleteUnlessDeleted s []
  | deleteUnlessDeleted (alive : s.deleted = false) :
      Performs s thread .deleteUnlessDeleted s [.delete]
  | delete (gone : s.deleted = true) :
      Performs s thread .delete { s with deleted := true } [.disconnectIfConnected, .closeSocket]
  | deleteReturns (alive : s.deleted = false) : Performs s thread .delete s []
  | disconnectFirst (opened : s.connected = true) :
      Performs s thread .disconnectIfConnected s [.disconnect]
  | notConnected (closed : s.connected = false) : Performs s thread .disconnectIfConnected s []
  | closeSocket : Performs s thread .closeSocket { s with closes := s.closes + 1 } []

theorem lockAndWrite_performs {s after : Socket} {thread : Nat} {op : Op} {bytes : List UInt8}
    {following ops : List Op} (sends : payload op = some (bytes, following))
    (done : s.lockAndWrite thread bytes following = some (after, ops)) :
    Performs s thread op after ops := by
  rcases Option.map_eq_some_iff.mp done with ⟨mutex, taken, result⟩
  rcases write_eq { s with mutex := mutex } bytes with ⟨room, written⟩ | ⟨full, refused⟩
  · simp only [written, if_true] at result
    cases result
    exact .accept sends taken room
  · simp only [refused, Bool.false_eq_true, if_false] at result
    cases result
    exact .refuse sends taken full

theorem perform_performs {s after : Socket} {thread : Nat} {succeeds : Bool} {op : Op}
    {ops : List Op} (done : s.perform thread succeeds op = some (after, ops)) :
    Performs s thread op after ops := by
  cases op with
  | send bytes => exact lockAndWrite_performs rfl done
  | sendHeader packet => exact lockAndWrite_performs rfl done
  | sendPayload packet => exact lockAndWrite_performs rfl done
  | unlock =>
      cases done
      exact .unlock
  | burstBegin =>
      rcases Option.map_eq_some_iff.mp done with ⟨mutex, taken, result⟩
      cases result
      exact .burstBegin taken
  | burstSend bytes =>
      simp only [perform] at done
      rcases s.write_eq bytes with ⟨room, written⟩ | ⟨full, refused⟩
      · rw [written] at done
        cases done
        exact .burstAccept room
      · rw [refused] at done
        cases done
        exact .burstRefuse full
  | burstPush =>
      simp only [perform] at done
      split at done <;> cases done
      · exact .acquired (by assumption)
      · exact .busy (by assumption)
  | writeCallback =>
      simp only [perform] at done
      split at done <;> cases done
      · exact .early (by assumption)
      · exact .callback (by assumption)
  | submit =>
      rcases Option.map_eq_some_iff.mp done with ⟨mutex, taken, result⟩
      split at result
      · split at result <;> cases result
        · exact .submitted taken (by assumption)
        · exact .failed taken (by assumption)
      · cases result
        exact .nothing taken (Decidable.not_not.mp (by assumption))
  | decSendLock =>
      cases done
      exact .decSendLock
  | handleWriteComplete len =>
      simp only [perform] at done
      split at done <;> cases done
      · exact .ignored (by assumption)
      · exact .handled (eq_false_of_ne_true (by assumption))
  | remove len =>
      rcases Option.map_eq_some_iff.mp done with ⟨mutex, taken, result⟩
      by_cases left_ : 0 < (s.writeBuffer.remove len).getContiguiousBytes
      · rw [if_pos left_] at result
        cases result
        exact .more taken left_
      · rw [if_neg left_] at result
        cases result
        exact .last taken (Nat.eq_zero_of_not_pos left_)
  | handleReadComplete len replies =>
      simp only [perform] at done
      split at done
      · cases done
        exact .readIgnored (by assumption)
      · rename_i alive
        split at done <;> cases done
        · exact .received (eq_false_of_ne_true alive) (by assumption)
        · rename_i none_
          cases Decidable.not_not.mp none_
          exact .readNothing (eq_false_of_ne_true alive)
  | setConnected =>
      cases done
      exact .setConnected
  | setupReadEvent =>
      simp only [perform] at done
      split at done
      · cases done
        exact .noRead
      · rename_i opened
        split at done <;> cases done
        · exact .noRead
        · exact .readFailed (Decidable.not_not.mp fun closed => opened (Or.inr closed))
  | addSocket =>
      cases done
      exact .addSocket
  | disconnect =>
      simp only [perform] at done
      split at done <;> cases done
      · exact .disconnect (by assumption)
      · exact .disconnected (eq_false_of_ne_true (by assumption))
  | clearConnected =>
      cases done
      exact .clearConnected
  | delSocket =>
      cases done
      exact .delSocket
  | onDisconnect =>
      cases done
      exact .onDisconnect
  | deleteUnlessDeleted =>
      simp only [perform] at done
      split at done <;> cases done
      · exact .deletedAlready (by assumption)
      · exact .deleteUnlessDeleted (eq_false_of_ne_true (by assumption))
  | delete =>
      simp only [perform] at done
      split at done <;> cases done
      · exact .delete (by assumption)
      · exact .deleteReturns (eq_false_of_ne_true (by assumption))
  | disconnectIfConnected =>
      simp only [perform] at done
      split at done <;> cases done
      · exact .disconnectFirst (by assumption)
      · exact .notConnected (eq_false_of_ne_true (by assumption))
  | closeSocket =>
      cases done
      exact .closeSocket

/-- The steps of the socket. -/
inductive Moves (s : Socket) : Event -> Socket -> Prop
  | call {thread : Nat} {entry : Entry} (idle : s.stack thread = [])
      (inside : entry.insideBurst = true -> 0 < s.bursts thread) :
      Moves s (.call thread entry) { s.setStack thread entry.ops with
        bursts :=
          if entry = .burstEnd then Function.update s.bursts thread (s.bursts thread - 1)
          else s.bursts }
  | step {thread : Nat} {succeeds : Bool} {op : Op} {rest ops : List Op} {after : Socket}
      (top : s.stack thread = op :: rest) (performs : Performs s thread op after ops) :
      Moves s (.step thread succeeds) (after.setStack thread (ops ++ rest))
  | dequeue {thread index len : Nat} {span : Span} (idle : s.stack thread = [])
      (outstanding : s.inflight[index]? = some span) (some_ : 1 ≤ len)
      (part : len ≤ span.bytes.length) :
      Moves s (.dequeue thread index len) { s.setStack thread [.handleWriteComplete len] with
        inflight := s.inflight.eraseIdx index
        transferred := s.transferred ++ span.bytes.take len }
  | dequeueError {thread index : Nat} {span : Span} (idle : s.stack thread = [])
      (outstanding : s.inflight[index]? = some span) :
      Moves s (.dequeueError thread index) { s with inflight := s.inflight.eraseIdx index }

theorem next_moves {s after : Socket} {event : Event} (taken : s.next event = some after) :
    Moves s event after := by
  cases event with
  | call thread entry =>
      simp only [next] at taken
      split at taken
      · rename_i idle
        simp only [start] at taken
        split at taken
        · cases taken
        · rename_i allowed
          cases taken
          refine .call idle fun inside => Nat.pos_of_ne_zero fun zero => allowed ⟨inside, zero⟩
      · cases taken
  | step thread succeeds =>
      simp only [next] at taken
      cases top : s.stack thread with
      | nil =>
          rw [top] at taken
          cases taken
      | cons op rest =>
          rw [top] at taken
          rcases Option.map_eq_some_iff.mp taken with ⟨⟨middle, ops⟩, done, result⟩
          cases result
          exact .step top (perform_performs done)
  | dequeue thread index len =>
      simp only [next] at taken
      split at taken
      · rename_i span idle outstanding
        split at taken
        · rename_i bounds
          cases taken
          exact .dequeue idle outstanding bounds.1 bounds.2
        · cases taken
      · cases taken
  | dequeueError thread index =>
      simp only [next] at taken
      split at taken
      · cases taken
        exact .dequeueError (by assumption) (by assumption)
      · cases taken

/-- The answers of `OnRead` weigh nothing if packets and reads do not. -/
theorem tally_replies {weight : Op -> Nat} (packets : forall packet, weight (.sendHeader packet) = 0)
    (reads : weight .setupReadEvent = 0) (replies : List PacketBuffer) :
    tally weight (replies.map .sendHeader ++ [.setupReadEvent]) = 0 := by
  induction replies with
  | nil =>
      rw [List.map_nil, List.nil_append, tally_cons, reads]
      rfl
  | cons packet replies inductionHypothesis =>
      rw [List.map_cons, List.cons_append, tally_cons, packets, inductionHypothesis]

theorem Performs.stack {s after : Socket} {thread : Nat} {op : Op} {ops : List Op}
    (performs : Performs s thread op after ops) : after.stack = s.stack := by
  cases performs with
  | _ => rfl

theorem Moves.stack_other {s after : Socket} {event : Event} (moves : Moves s event after)
    {other : Nat} (apart : other ≠ event.thread) : after.stack other = s.stack other := by
  cases moves with
  | call idle inside => exact Function.update_of_ne apart _ _
  | step top performs =>
      rw [← performs.stack]
      exact Function.update_of_ne apart _ _
  | dequeue idle outstanding some_ part => exact Function.update_of_ne apart _ _
  | dequeueError idle outstanding => rfl

/-- A thread that takes no step is not inside the socket. -/
theorem run_stack_other {block : List UInt8} {events : List Event} {s : Socket}
    (run : Run (Stepping next) (new block) events s) {other : Nat}
    (apart : forall event, event ∈ events -> other ≠ event.thread) : s.stack other = [] := by
  induction run with
  | refl => rfl
  | snoc earlier last inductionHypothesis =>
      rw [(next_moves last).stack_other (apart _ (List.mem_append_right _ List.mem_cons_self))]
      exact inductionHypothesis fun event member => apart event (List.mem_append_left _ member)

/-- No thread is inside the socket after a run when those that took its steps
are not. -/
theorem run_idle {block : List UInt8} {events : List Event} {s : Socket}
    (run : Run (Stepping next) (new block) events s)
    (outside : events.all (fun event => s.stack event.thread = []) = true) (thread : Nat) :
    s.stack thread = [] := by
  by_cases takes : Exists fun event => event ∈ events ∧ thread = event.thread
  · rcases takes with ⟨event, member, rfl⟩
    exact of_decide_eq_true (List.all_eq_true.mp outside event member)
  · exact run_stack_other run fun event member same => takes ⟨event, member, same⟩

end Socket
end Iocp
end ServerTech
