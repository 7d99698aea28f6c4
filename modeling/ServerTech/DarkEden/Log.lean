import ServerTech.Foundation.Block
import ServerTech.Foundation.Transition

namespace ServerTech
namespace DarkEden

open Transition

/-!
# The log of the game servers

`oLog` collects messages in a list that a logger thread flushes to a file, and
`outToFile` flushes a list of its own in the thread that calls it.  Both flushes
pack their messages into one buffer, which no lock guards.

A message carries the number of the call it was made by, and the cells of the
buffer and of the file carry the number of the call, the place in the message
and the byte.  The text of a message is what `logString` returned.
-/

/-! ## Messages -/

/-- `TLogLevel`. -/
inductive TLogLevel
  | always
  | fatal
  | error
  | warning
  | debug
  | info
  deriving DecidableEq

/-- The value of the enumerator. -/
def TLogLevel.value : TLogLevel -> Int
  | .always => 0
  | .fatal => 1
  | .error => 2
  | .warning => 3
  | .debug => 4
  | .info => 5

/-- The string of one call. -/
structure Message where
  call : Nat
  text : List UInt8
  deriving DecidableEq

/-- A byte of a message, with its place. -/
structure Cell where
  call : Nat
  index : Nat
  byte : UInt8
  deriving DecidableEq

def Message.cells (message : Message) : List Cell :=
  message.text.zipIdx.map fun entry => ⟨message.call, entry.2, entry.1⟩

@[simp] theorem Message.length_cells (message : Message) :
    message.cells.length = message.text.length := by
  rw [Message.cells, List.length_map, List.length_zipIdx]

/-- The messages one behind the other. -/
def packed (messages : List Message) : List (Option Cell) :=
  (messages.flatMap Message.cells).map some

@[simp] theorem packed_append (first second : List Message) :
    packed (first ++ second) = packed first ++ packed second := by
  rw [packed, List.flatMap_append, List.map_append]
  rfl

@[simp] theorem packed_singleton (message : Message) :
    packed [message] = message.cells.map some := by
  rw [packed, List.flatMap_singleton]

theorem packed_flatten (groups : List (List Message)) :
    (groups.map packed).flatten = packed groups.flatten := by
  induction groups with
  | nil => rfl
  | cons group groups inductionHypothesis =>
      rw [List.map_cons, List.flatten_cons, List.flatten_cons, packed_append, inductionHypothesis]

/-! ## The buffer -/

/-- `LogBufferSize`. -/
def logBufferSize : Nat := 1024 * 1024

/-- The member `buffer`.  A cell that was never written holds nothing. -/
structure LogBuffer where
  cells : List (Option Cell)
  allocated : cells.length = logBufferSize

namespace LogBuffer

def fresh : LogBuffer where
  cells := List.replicate logBufferSize none
  allocated := List.length_replicate

/-- Copy a string into the buffer.  There is no result when it leaves the
buffer. -/
def memmove (buffer : LogBuffer) (pos : Nat) (data : List Cell) : Option LogBuffer :=
  if inside : pos + data.length ≤ logBufferSize then
    some
      { cells := Block.overwrite buffer.cells pos (data.map some)
        allocated := by
          rw [Block.length_overwrite, buffer.allocated]
          rw [List.length_map, buffer.allocated]
          exact inside }
  else none

/-- The first `size` bytes of the buffer. -/
def content (buffer : LogBuffer) (size : Nat) : List (Option Cell) :=
  Block.slice buffer.cells 0 size

theorem memmove_inside (buffer : LogBuffer) {pos : Nat} {data : List Cell}
    (inside : pos + data.length ≤ logBufferSize) :
    Exists fun after => buffer.memmove pos data = some after :=
  ⟨_, dif_pos inside⟩

/-- A string behind what is already packed extends it. -/
theorem memmove_content {buffer after : LogBuffer} {pos : Nat} {data : List Cell}
    (moved : buffer.memmove pos data = some after) :
    after.content (pos + data.length) = buffer.content pos ++ data.map some := by
  unfold memmove at moved
  by_cases inside : pos + data.length ≤ logBufferSize
  · rw [dif_pos inside] at moved
    cases moved
    have room : 0 + pos + (data.map some).length ≤ buffer.cells.length := by
      rw [Nat.zero_add, List.length_map, buffer.allocated]
      exact inside
    have written := Block.slice_overwrite_extend buffer.cells room
    rw [Nat.zero_add, List.length_map] at written
    exact written
  · rw [dif_neg inside] at moved
    cases moved

end LogBuffer

/-! ## The class -/

/-- `m_MaxLogCount`. -/
def maxLogCount : Nat := 100 * 10000

/-- The fields of `oLog` that its calls use, the console and the file `Log`.
`opened` says that `m_file` is not null. -/
structure Log where
  fileLogLevel : Int
  screenLogLevel : Int
  needLog : Bool
  opened : Bool
  logList : List Message
  buffer : LogBuffer
  screen : List Message
  file : List (Option Cell)

/-- A call of `flushLog` behind its `swap`: the strings that the loop has not
reached and the local `pos`. -/
structure Flush where
  rest : List Message
  pos : Nat

namespace Log

/-- The object after its constructor. -/
def new : Log where
  fileLogLevel := 0
  screenLogLevel := 0
  needLog := false
  opened := false
  logList := []
  buffer := LogBuffer.fresh
  screen := []
  file := []

def Init (log : Log) (fileLogLevel screenLogLevel : Int) : Log :=
  { log with
    needLog := decide (0 < fileLogLevel ∨ 0 < screenLogLevel)
    screenLogLevel := screenLogLevel
    fileLogLevel := fileLogLevel }

def writeToFile (log : Log) (size : Nat) : Log :=
  if log.opened then { log with file := log.file ++ log.buffer.content size } else log

def outScreen (log : Log) (message : Message) : Log :=
  { log with screen := log.screen ++ [message] }

def outFile (log : Log) (message : Message) : Log :=
  if maxLogCount < log.logList.length then log
  else { log with logList := log.logList ++ [message] }

def outLog (log : Log) (message : Message) (level : TLogLevel) : Log :=
  let shown := if level.value ≤ log.screenLogLevel then log.outScreen message else log
  if level.value ≤ shown.fileLogLevel then shown.outFile message else shown

/-- The calls that ask `m_NeedLog` first. -/
def outLogIfNeeded (log : Log) (message : Message) (level : TLogLevel) : Log :=
  if log.needLog then log.outLog message level else log

def outString (log : Log) (message : Message) : Log :=
  log.outLog message .always

def outError (log : Log) (message : Message) : Log :=
  log.outLogIfNeeded message .error

def outFatal (log : Log) (message : Message) : Log :=
  log.outLogIfNeeded message .fatal

def outWarning (log : Log) (message : Message) : Log :=
  log.outLog message .warning

def outInfo (log : Log) (message : Message) : Log :=
  log.outLogIfNeeded message .info

def outDebug (log : Log) (message : Message) : Log :=
  log.outLogIfNeeded message .debug

def logScreenAndFile (log : Log) (message : Message) : Log :=
  (log.outScreen message).outFile message

/-- The message goes the way of every error, and if the file is open the caller
flushes a list with this one message. -/
def outToFile (log : Log) (message : Message) : Log × Option Flush :=
  let logged := log.outLog message .error
  (logged, if logged.opened then some ⟨[message], 0⟩ else none)

/-- One round of the loop of `flushLog`, up to its next access of the shared
buffer, and the end of the call behind the loop. -/
def flushLog (log : Log) : Flush -> Option (Log × Option Flush)
  | ⟨[], pos⟩ => some (if 0 < pos then log.writeToFile pos else log, none)
  | ⟨message :: rest, pos⟩ =>
      if logBufferSize < message.text.length then some (log, some ⟨rest, pos⟩)
      else if logBufferSize < message.text.length + pos then
        some (log.writeToFile pos, some ⟨message :: rest, 0⟩)
      else
        (log.buffer.memmove pos message.cells).map fun buffer =>
          ({ log with buffer := buffer }, some ⟨rest, pos + message.text.length⟩)

/-- What a round of `flushLog` can do: skip a string that is longer than the
buffer, make room for the next string, pack it, or end. -/
inductive Flushes (log : Log) : Flush -> Log -> Option Flush -> Prop
  | skip {message : Message} {rest : List Message} {pos : Nat} :
      logBufferSize < message.text.length ->
      Flushes log ⟨message :: rest, pos⟩ log (some ⟨rest, pos⟩)
  | full {message : Message} {rest : List Message} {pos : Nat} :
      message.text.length ≤ logBufferSize -> logBufferSize < message.text.length + pos ->
      Flushes log ⟨message :: rest, pos⟩ (log.writeToFile pos) (some ⟨message :: rest, 0⟩)
  | pack {message : Message} {rest : List Message} {pos : Nat} {buffer : LogBuffer} :
      message.text.length ≤ logBufferSize -> message.text.length + pos ≤ logBufferSize ->
      log.buffer.memmove pos message.cells = some buffer ->
      Flushes log ⟨message :: rest, pos⟩ { log with buffer := buffer }
        (some ⟨rest, pos + message.text.length⟩)
  | done {pos : Nat} :
      Flushes log ⟨[], pos⟩ (if 0 < pos then log.writeToFile pos else log) none

/-- Every round returns, since a string is packed only where it ends inside the
buffer. -/
theorem flushLog_flushes (log : Log) (flush : Flush) :
    Exists fun after => Exists fun following =>
      log.flushLog flush = some (after, following) ∧ Flushes log flush after following := by
  rcases flush with ⟨rest, pos⟩
  cases rest with
  | nil => exact ⟨_, _, rfl, .done⟩
  | cons message rest =>
      simp only [flushLog]
      by_cases long : logBufferSize < message.text.length
      · rw [if_pos long]
        exact ⟨_, _, rfl, .skip long⟩
      · have short : message.text.length ≤ logBufferSize := Nat.le_of_not_lt long
        rw [if_neg long]
        by_cases full : logBufferSize < message.text.length + pos
        · rw [if_pos full]
          exact ⟨_, _, rfl, .full short full⟩
        · have inside : pos + message.cells.length ≤ logBufferSize := by
            rw [message.length_cells, Nat.add_comm]
            exact Nat.le_of_not_lt full
          rcases LogBuffer.memmove_inside log.buffer inside with ⟨buffer, moved⟩
          rw [if_neg full, moved]
          exact ⟨_, _, rfl, .pack short (Nat.le_of_not_lt full) moved⟩

end Log

/-- The public calls that log to the file. -/
inductive Call
  | outString
  | outError
  | outFatal
  | outWarning
  | outInfo
  | outDebug
  | logScreenAndFile
  | outToFile

/-- A call, with the flush that the caller still has to do. -/
def Log.out (log : Log) (message : Message) : Call -> Log × Option Flush
  | .outString => (log.outString message, none)
  | .outError => (log.outError message, none)
  | .outFatal => (log.outFatal message, none)
  | .outWarning => (log.outWarning message, none)
  | .outInfo => (log.outInfo message, none)
  | .outDebug => (log.outDebug message, none)
  | .logScreenAndFile => (log.logScreenAndFile message, none)
  | .outToFile => log.outToFile message

/-! ## The threads -/

inductive Thread (τ : Type)
  | logger
  | caller (name : τ)
  deriving DecidableEq

/-- The log, the calls of `flushLog` that have not returned with their threads,
and the number of calls so far. -/
structure System (τ : Type) where
  log : Log
  flushes : List (Thread τ × Flush)
  calls : Nat

/-- A step of a thread.  `reopen` is what `open`, `close` and a file that cannot
be renewed do to `m_file`. -/
inductive Action (τ : Type)
  | init (fileLogLevel screenLogLevel : Int)
  | reopen (opened : Bool)
  | out (thread : τ) (call : Call) (text : List UInt8)
  | startFlush
  | flush (thread : Thread τ)

namespace System

variable {τ : Type} [DecidableEq τ]

def new : System τ where
  log := Log.new
  flushes := []
  calls := 0

/-- Where a thread is in its flush. -/
def flushOf (system : System τ) (thread : Thread τ) : Option Flush :=
  system.flushes.lookup thread

/-- The flushes after a step of a thread. -/
def proceed (system : System τ) (thread : Thread τ) (flush : Option Flush) :
    List (Thread τ × Flush) :=
  system.flushes.filter (fun entry => entry.1 ≠ thread) ++ (flush.map (Prod.mk thread)).toList

/-- A thread inside `flushLog` can only go on with it.  The logger thread calls
it when the file is open and the list is not empty, and takes the whole list. -/
def next (system : System τ) : Action τ -> Option (System τ)
  | .init fileLogLevel screenLogLevel =>
      some { system with log := system.log.Init fileLogLevel screenLogLevel }
  | .reopen opened => some { system with log := { system.log with opened := opened } }
  | .out thread call text =>
      match system.flushOf (.caller thread) with
      | some _ => none
      | none =>
          let result := system.log.out ⟨system.calls, text⟩ call
          some
            { log := result.1
              flushes := system.proceed (.caller thread) result.2
              calls := system.calls + 1 }
  | .startFlush =>
      match system.flushOf .logger with
      | some _ => none
      | none =>
          if system.log.opened ∧ system.log.logList ≠ [] then
            some
              { system with
                log := { system.log with logList := [] }
                flushes := system.proceed .logger (some ⟨system.log.logList, 0⟩) }
          else none
  | .flush thread =>
      match system.flushOf thread with
      | none => none
      | some flush =>
          (system.log.flushLog flush).map fun result =>
            { system with log := result.1, flushes := system.proceed thread result.2 }

end System

end DarkEden
end ServerTech
