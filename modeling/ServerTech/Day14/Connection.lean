import Mathlib.Data.List.Basic

namespace ServerTech
namespace Day14

/-!
# Reading from a connection

`Connection::read` clears the read buffer and fills it again, from a socket that
blocks with one `::read`, from one that does not with a loop that ends when the
kernel has nothing more.  What the kernel answers is input: a call is given
together with the results of the `::read` calls it makes, and it returns only if
it makes exactly those.

The loop has a branch for data in which it does nothing, and its test for
`EWOULDBLOCK` is an assignment, whose value is not zero.
-/

/-! ## The results of `::read` -/

def EINTR : Nat := 4

def EAGAIN : Nat := 11

def EWOULDBLOCK : Nat := 11

/-- The bytes of one successful `::read`. -/
structure Chunk where
  bytes : List UInt8
  nonempty : bytes ≠ []

inductive ReadResult
  | data (chunk : Chunk)
  | eof
  | failed (errno : Nat)

namespace ReadResult

def bytesRead : ReadResult -> Int
  | data chunk => chunk.bytes.length
  | eof => 0
  | failed _ => -1

/-- `errno` after the call.  It is looked at after an error only. -/
def errno : ReadResult -> Nat
  | failed errno => errno
  | _ => 0

def bytes : ReadResult -> List UInt8
  | data chunk => chunk.bytes
  | _ => []

end ReadResult

/-! ## The class -/

inductive State
  | invalid
  | handshaking
  | connected
  | closed
  | failed
  deriving DecidableEq

/-- `Buffer::append`, which copies up to the first NUL. -/
def Buffer.append (buf str : List UInt8) (sz : Nat) : List UInt8 :=
  buf ++ (str.take sz).takeWhile fun byte => byte ≠ 0

/-- The fields of `Connection` that `read` uses. -/
structure Connection where
  nonBlocking : Bool
  readBuffer : List UInt8
  state : State

namespace Connection

/-- A call returns when it has made all its reads. -/
def returns (connection : Connection) (results : List ReadResult) : Option Connection :=
  if results.isEmpty then some connection else none

/-- The test for `EWOULDBLOCK` is an assignment, which has the value of the
constant. -/
def readNonBlocking (connection : Connection) : List ReadResult -> Option Connection
  | [] => none
  | result :: results =>
      if 0 < result.bytesRead then connection.readNonBlocking results
      else if result.bytesRead = -1 ∧ result.errno = EINTR then connection.readNonBlocking results
      else if result.bytesRead = -1 ∧ (result.errno = EAGAIN ∨ EWOULDBLOCK ≠ 0) then
        connection.returns results
      else if result.bytesRead = 0 then { connection with state := .closed }.returns results
      else { connection with state := .closed }.returns results

def readBlocking (connection : Connection) : List ReadResult -> Option Connection
  | [] => none
  | result :: results =>
      if 0 < result.bytesRead then
        { connection with
          readBuffer := Buffer.append connection.readBuffer result.bytes result.bytesRead.toNat }.returns results
      else if result.bytesRead = 0 then { connection with state := .closed }.returns results
      else if result.bytesRead = -1 then { connection with state := .closed }.returns results
      else connection.returns results

/-- `read`, which asserts that the connection is open. -/
def read (connection : Connection) (results : List ReadResult) : Option Connection :=
  if connection.state = .connected then
    if connection.nonBlocking then { connection with readBuffer := [] }.readNonBlocking results
    else { connection with readBuffer := [] }.readBlocking results
  else none

end Connection

/-! ## The loop -/

namespace ReadResult

/-- The results after which the loop reads again. -/
def goesOn : ReadResult -> Bool
  | data _ => true
  | eof => false
  | failed errno => errno = EINTR

/-- The kernel has nothing more now. -/
def waits : ReadResult -> Bool
  | failed errno => errno = EAGAIN ∨ errno = EWOULDBLOCK
  | _ => false

def isEof : ReadResult -> Bool
  | eof => true
  | _ => false

theorem bytesRead_data (chunk : Chunk) : 0 < (data chunk).bytesRead := by
  have size := List.length_pos_iff.mpr chunk.nonempty
  rw [bytesRead]
  omega

end ReadResult

namespace Connection

variable {connection after : Connection}

/-- What one round of the loop does.  It never looks at the bytes, and the only
result that closes the connection is the end of the stream. -/
theorem readNonBlocking_cons (connection : Connection) (result : ReadResult) (results : List ReadResult) :
    connection.readNonBlocking (result :: results) =
      if result.goesOn then connection.readNonBlocking results
      else if result.isEof then { connection with state := .closed }.returns results
      else connection.returns results := by
  rw [readNonBlocking]
  cases result with
  | data chunk => rw [if_pos (ReadResult.bytesRead_data chunk), ReadResult.goesOn, if_pos rfl]
  | eof => rfl
  | failed errno =>
      have negative : ¬ 0 < (ReadResult.failed errno).bytesRead := by
        change ¬ (0 : Int) < -1
        decide
      by_cases interrupted : errno = EINTR
      · have goesOn : (ReadResult.failed errno).goesOn = true := decide_eq_true interrupted
        rw [if_neg negative, if_pos ⟨rfl, interrupted⟩, if_pos goesOn]
      · have ends : ¬ (ReadResult.failed errno).goesOn = true := by
          intro goesOn
          exact interrupted (of_decide_eq_true goesOn)
        rw [if_neg negative, if_neg fun both => interrupted both.2, if_pos ⟨rfl, .inr (by decide)⟩,
          if_neg ends]
        rfl

/-- The loop ends at the first result that does not let it go on, with a closed
connection exactly when this is the end of the stream. -/
theorem readNonBlocking_eq (connection : Connection) {earlier : List ReadResult} {last : ReadResult}
    (goesOn : forall result, result ∈ earlier -> result.goesOn = true) (ends : last.goesOn = false) :
    connection.readNonBlocking (earlier ++ [last]) =
      some { connection with state := if last.isEof then .closed else connection.state } := by
  induction earlier with
  | nil =>
      rw [List.nil_append, readNonBlocking_cons, ends]
      cases last.isEof <;> rfl
  | cons result earlier inductionHypothesis =>
      rw [List.cons_append, readNonBlocking_cons, goesOn result List.mem_cons_self, if_pos rfl]
      exact inductionHypothesis fun other member => goesOn other (List.mem_cons_of_mem _ member)

/-- The read buffer holds what was read, and the connection is closed exactly
when the stream ended or failed. -/
structure Keeps (after : Connection) (earlier : List ReadResult) (last : ReadResult) : Prop where
  content : after.readBuffer = (earlier ++ [last]).flatMap ReadResult.bytes
  closed : after.state = .closed <-> last.waits = false

/-- A call that only waits: it is interrupted, and then there is nothing to read
or the stream has ended. -/
structure Quiet (earlier : List ReadResult) (last : ReadResult) : Prop where
  interrupted : forall result, result ∈ earlier -> result = .failed EINTR
  ended : last = .eof ∨ last = .failed EAGAIN

theorem bytes_eq_nil_iff {result : ReadResult} (goesOn : result.goesOn = true) :
    result.bytes = [] <-> result = .failed EINTR := by
  cases result with
  | data chunk => exact ⟨fun empty => absurd empty chunk.nonempty, nofun⟩
  | eof => cases goesOn
  | failed errno =>
      cases of_decide_eq_true goesOn
      exact ⟨fun _ => rfl, fun _ => rfl⟩

theorem ended_iff {last : ReadResult} (ends : last.goesOn = false) :
    (last.isEof = true <-> last.waits = false) <-> last = .eof ∨ last = .failed EAGAIN := by
  cases last with
  | data chunk => cases ends
  | eof => exact ⟨fun _ => .inl rfl, fun _ => ⟨fun _ => rfl, fun _ => rfl⟩⟩
  | failed errno =>
      constructor
      · intro same
        by_cases again : errno = EAGAIN
        · exact .inr (congrArg ReadResult.failed again)
        · have closes : (ReadResult.failed errno).waits = false := by
            refine decide_eq_false ?_
            rintro (same | same)
            · exact again same
            · exact again same
          cases same.mpr closes
      · rintro (same | same)
        · cases same
        · cases same
          exact ⟨nofun, nofun⟩

/-- A call that reads from a socket that does not block keeps what it reads, and
closes the connection when it should, exactly when it gets no data at all and
ends with `EAGAIN` or the end of the stream. -/
theorem read_keeps_iff (connection : Connection) (earlier : List ReadResult) (last : ReadResult)
    (open_ : connection.state = .connected) (nonBlocking : connection.nonBlocking = true)
    (goesOn : forall result, result ∈ earlier -> result.goesOn = true) (ends : last.goesOn = false) :
    Exists fun after => connection.read (earlier ++ [last]) = some after ∧
      (after.Keeps earlier last <-> Quiet earlier last) := by
  refine ⟨⟨connection.nonBlocking, [], if last.isEof then .closed else connection.state⟩, ?_, ?_⟩
  · rw [read, if_pos open_, if_pos nonBlocking]
    exact readNonBlocking_eq _ goesOn ends
  · have none_ : last.bytes = [] := by
      cases last with
      | data chunk => cases ends
      | _ => rfl
    have content : [] = (earlier ++ [last]).flatMap ReadResult.bytes <->
        forall result, result ∈ earlier -> result = .failed EINTR := by
      rw [eq_comm, List.flatMap_append, List.flatMap_singleton, none_, List.append_nil,
        List.flatMap_eq_nil_iff]
      exact forall₂_congr fun result member => bytes_eq_nil_iff (goesOn result member)
    have closed : (if last.isEof then State.closed else connection.state) = .closed <->
        last.isEof = true := by
      rw [open_]
      cases last.isEof with
      | true => exact ⟨fun _ => rfl, fun _ => rfl⟩
      | false => exact ⟨nofun, nofun⟩
    constructor
    · intro keeps
      exact ⟨content.mp keeps.content, (ended_iff ends).mp (closed.symm.trans keeps.closed)⟩
    · intro quiet
      exact ⟨content.mpr quiet.interrupted, closed.trans ((ended_iff ends).mpr quiet.ended)⟩

/-- Two interrupts and then nothing to read. -/
theorem read_keeps_interrupts :
    Exists fun after =>
      (Connection.mk true [104] .connected).read [.failed EINTR, .failed EINTR, .failed EAGAIN] = some after ∧
      after.Keeps [.failed EINTR, .failed EINTR] (.failed EAGAIN) := by
  have interrupts : forall result, result ∈ [ReadResult.failed EINTR, .failed EINTR] ->
      result = .failed EINTR := by
    intro result member
    exact List.eq_of_mem_replicate (n := 2) member
  rcases read_keeps_iff ⟨true, [104], .connected⟩ [.failed EINTR, .failed EINTR] (.failed EAGAIN) rfl rfl
    (by intro result member; rw [interrupts result member]; rfl) rfl with ⟨after, returned, iff⟩
  exact ⟨after, returned, iff.mpr ⟨interrupts, .inr rfl⟩⟩

/-- Two bytes that are not in the read buffer, and a connection that is reset
and not closed. -/
theorem read_loses :
    (Exists fun after =>
      (Connection.mk true [] .connected).read [.data ⟨[104, 105], by decide⟩, .failed EAGAIN] = some after ∧
      after.readBuffer = [] ∧ ¬ after.Keeps [.data ⟨[104, 105], by decide⟩] (.failed EAGAIN)) ∧
    Exists fun after =>
      (Connection.mk true [] .connected).read [.failed 104] = some after ∧
      after.state = .connected ∧ ¬ after.Keeps [] (.failed 104) := by
  refine ⟨⟨_, rfl, rfl, ?_⟩, ⟨_, rfl, rfl, ?_⟩⟩
  · intro keeps
    cases keeps.content
  · intro keeps
    cases keeps.closed.mpr rfl

/-! ## The socket that blocks -/

/-- The path for a socket that blocks keeps the bytes it reads up to a NUL, and
closes the connection unless there are some. -/
theorem read_blocking (connection : Connection) (result : ReadResult)
    (open_ : connection.state = .connected) (blocking : connection.nonBlocking = false) :
    Exists fun after => connection.read [result] = some after ∧
      after.readBuffer = result.bytes.takeWhile (fun byte => byte ≠ 0) ∧
      (after.state = .closed <-> result.bytes = []) := by
  have chosen : connection.read [result] = { connection with readBuffer := [] }.readBlocking [result] := by
    rw [read, if_pos open_, blocking, if_neg Bool.false_ne_true]
  rw [chosen, readBlocking]
  cases result with
  | data chunk =>
      rw [if_pos (ReadResult.bytesRead_data chunk)]
      refine ⟨_, rfl, ?_, ?_⟩
      · change [] ++ (chunk.bytes.take chunk.bytes.length).takeWhile _ = _
        rw [List.nil_append, List.take_length]
        rfl
      · change connection.state = .closed <-> chunk.bytes = []
        rw [open_]
        exact ⟨nofun, fun empty => absurd empty chunk.nonempty⟩
  | eof => exact ⟨_, rfl, rfl, fun _ => rfl, fun _ => rfl⟩
  | failed errno => exact ⟨_, rfl, rfl, fun _ => rfl, fun _ => rfl⟩

end Connection
end Day14
end ServerTech
