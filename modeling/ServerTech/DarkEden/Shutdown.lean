import ServerTech.DarkEden.Stream

namespace ServerTech
namespace DarkEden

open Transition

/-!
# The end of the log

`open` starts a logger thread and `close` ends it.  The thread tests
`m_Terminated`, sleeps, flushes the list of the log and the list of the SQL
statements, and tests again.  A message that reaches its list behind the last
flush of the list is lost when the next test finds the flag set, and so is one
whose packed bytes `outToFile` overwrites from another thread.

The invariant follows every accepted message through the stream of its list.
The thread takes the list once more before the test at which it ends, if `close`
is called while it sleeps.
-/

/-! ## The logger thread -/

/-- Where the logger thread stands in `logLooping`. -/
inductive Logger
  | starting
  | testing
  | sleeping
  | checkLog
  | swapLog
  | flushLog (flush : Flush)
  | checkSql
  | swapSql
  | flushSql (flush : Flush)
  | exited

/-- What a call of `close` is expected to have written, and whether it has
returned. -/
structure Promise where
  log : List Message
  sql : List Message
  returned : Bool
  deriving DecidableEq

/-- The log, the second list with its file, the logger thread, the calls of
`flushLog` by callers of `outToFile`, the messages that were accepted into the
lists so far, and the last call of `close`. -/
structure Service (τ : Type) where
  log : Log
  sqlList : List Message
  sqlOpened : Bool
  sqlFile : List (Option Cell)
  terminated : Bool
  logger : Option Logger
  callers : List (τ × Flush)
  calls : Nat
  accepted : List Message
  acceptedSql : List Message
  promise : Option Promise

/-- A step.  `open` comes with what `fopen` returned for the two files, and
`joined` is the part of `close` behind the `join`. -/
inductive ServiceAction (τ : Type)
  | init (fileLogLevel screenLogLevel : Int)
  | out (thread : τ) (call : Call) (text : List UInt8)
  | sqlOut (thread : τ) (text : List UInt8)
  | flush (thread : τ)
  | open (opened sqlOpened : Bool)
  | logger
  | close
  | joined

namespace Service

variable {τ : Type}

def new : Service τ where
  log := Log.new
  sqlList := []
  sqlOpened := false
  sqlFile := []
  terminated := false
  logger := none
  callers := []
  calls := 0
  accepted := []
  acceptedSql := []
  promise := none

/-- The shared buffer with the second file in the place of the first. -/
def sqlView (service : Service τ) : Log :=
  { service.log with opened := service.sqlOpened, file := service.sqlFile }

/-- One step of `logLooping`. -/
def loop (service : Service τ) : Logger -> Option (Service τ)
  | .starting => some { service with terminated := false, logger := some .testing }
  | .testing =>
      some { service with logger := some (if service.terminated then .exited else .sleeping) }
  | .sleeping => some { service with logger := some .checkLog }
  | .checkLog =>
      if service.log.opened ∧ service.log.logList ≠ [] then
        some { service with logger := some .swapLog }
      else some { service with logger := some .checkSql }
  | .swapLog =>
      some
        { service with
          log := { service.log with logList := [] }
          logger := some (.flushLog ⟨service.log.logList, 0⟩) }
  | .flushLog flush =>
      (service.log.flushLog flush).map fun result =>
        { service with
          log := result.1
          logger := some (match result.2 with | some flush => .flushLog flush | none => .checkSql) }
  | .checkSql =>
      if service.sqlOpened ∧ service.sqlList ≠ [] then some { service with logger := some .swapSql }
      else some { service with logger := some .testing }
  | .swapSql =>
      some
        { service with
          sqlList := []
          logger := some (.flushSql ⟨service.sqlList, 0⟩) }
  | .flushSql flush =>
      (service.sqlView.flushLog flush).map fun result =>
        { service with
          log := { service.log with buffer := result.1.buffer }
          sqlFile := result.1.file
          logger := some (match result.2 with | some flush => .flushSql flush | none => .testing) }
  | .exited => none

variable [DecidableEq τ]

/-- The flushes of the callers after a step of one of them. -/
def proceed (service : Service τ) (thread : τ) (flush : Option Flush) : List (τ × Flush) :=
  service.callers.filter (fun entry => entry.1 ≠ thread) ++ (flush.map (Prod.mk thread)).toList

/-- A caller inside `flushLog` can only go on with it.  Without a logger thread
`close` returns at once; with one it waits, and closing a file that is not open
has no result. -/
def next (service : Service τ) : ServiceAction τ -> Option (Service τ)
  | .init fileLogLevel screenLogLevel =>
      some { service with log := service.log.Init fileLogLevel screenLogLevel }
  | .out thread call text =>
      match service.callers.lookup thread with
      | some _ => none
      | none =>
          let result := service.log.out ⟨service.calls, text⟩ call
          some
            { service with
              log := result.1
              callers := service.proceed thread result.2
              calls := service.calls + 1
              accepted := service.accepted ++ result.1.logList.drop service.log.logList.length }
  | .sqlOut thread text =>
      match service.callers.lookup thread with
      | some _ => none
      | none =>
          some
            { service with
              sqlList := service.sqlList ++ [⟨service.calls, text⟩]
              calls := service.calls + 1
              acceptedSql := service.acceptedSql ++ [⟨service.calls, text⟩] }
  | .flush thread =>
      match service.callers.lookup thread with
      | none => none
      | some flush =>
          (service.log.flushLog flush).map fun result =>
            { service with log := result.1, callers := service.proceed thread result.2 }
  | .open opened sqlOpened =>
      match service.logger with
      | some _ => some service
      | none =>
          some
            { service with
              log := { service.log with opened := service.log.opened || opened }
              sqlOpened := service.sqlOpened || sqlOpened
              logger := some .starting }
  | .logger => service.logger.bind service.loop
  | .close =>
      if service.promise.any (fun promise => !promise.returned) then none
      else
        some
          { service with
            terminated := true
            promise := some ⟨service.accepted, service.acceptedSql, service.logger.isNone⟩ }
  | .joined =>
      match service.promise, service.logger with
      | some promise, some .exited =>
          if promise.returned = false ∧ service.log.opened = true ∧ service.sqlOpened = true then
            some
              { service with
                log := { service.log with opened := false }
                sqlOpened := false
                logger := none
                promise := some { promise with returned := true } }
          else none
      | _, _ => none

end Service

/-! ## The streams of the service -/

namespace Logger

/-- The flush of the first list. -/
def logFlush : Logger -> Option Flush
  | .flushLog flush => some flush
  | _ => none

/-- The flush of the second list. -/
def sqlFlush : Logger -> Option Flush
  | .flushSql flush => some flush
  | _ => none

/-- The thread has found the first file open. -/
def usesLog : Logger -> Bool
  | .swapLog | .flushLog _ => true
  | _ => false

/-- The thread has found the second file open. -/
def usesSql : Logger -> Bool
  | .swapSql | .flushSql _ => true
  | _ => false

/-- The thread is about to take a list. -/
def swaps : Logger -> Bool
  | .swapLog | .swapSql => true
  | _ => false

/-- The thread takes the first list before its next test of the flag. -/
def beforeLog : Logger -> Bool
  | .starting | .sleeping | .checkLog | .swapLog => true
  | _ => false

/-- The thread takes the second list before its next test of the flag. -/
def beforeSql : Logger -> Bool
  | .starting | .sleeping | .checkLog | .swapLog | .flushLog _ | .checkSql | .swapSql => true
  | _ => false

end Logger

namespace Service

variable {τ : Type}

def logStream (service : Service τ) : Stream where
  opened := service.log.opened
  list := service.log.logList
  file := service.log.file
  accepted := service.accepted
  flush := service.logger.bind Logger.logFlush

def sqlStream (service : Service τ) : Stream where
  opened := service.sqlOpened
  list := service.sqlList
  file := service.sqlFile
  accepted := service.acceptedSql
  flush := service.logger.bind Logger.sqlFlush

/-- The logger thread is inside `flushLog`. -/
def flushing (service : Service τ) : Bool :=
  service.logger.any fun state => state.logFlush.isSome || state.sqlFlush.isSome

/-- What the logger thread relies on: no caller uses the buffer while it does,
the files it has found open stay open, and it ends only when the flag is set. -/
structure Sound (service : Service τ) : Prop where
  alone : service.flushing = true -> service.callers = []
  logOpened : service.logger.any Logger.usesLog = true -> service.log.opened = true
  sqlOpened : service.logger.any Logger.usesSql = true -> service.sqlOpened = true
  exited : service.logger = some .exited -> service.terminated = true

/-- The flag is set and the thread does not take the first list before it tests
the flag. -/
def logDue (service : Service τ) : Bool :=
  service.terminated && service.log.opened && service.logger.any (fun state => !state.beforeLog)

/-- The same for the second list. -/
def sqlDue (service : Service τ) : Bool :=
  service.terminated && service.sqlOpened && service.logger.any (fun state => !state.beforeSql)

/-- No accepted message is lost, and the last call of `close` finds what it
promised. -/
structure Safe (service : Service τ) : Prop where
  sound : service.Sound
  log : service.logStream.Kept service.log.buffer
  sql : service.sqlStream.Kept service.log.buffer
  logPromise : forall promise, service.promise = some promise ->
    service.logStream.Honours service.log.buffer promise.log promise.returned service.logDue
  sqlPromise : forall promise, service.promise = some promise ->
    service.sqlStream.Honours service.log.buffer promise.sql promise.returned service.sqlDue

theorem safe_new : (new : Service τ).Safe where
  sound := ⟨nofun, nofun, nofun, nofun⟩
  log := fun _ member => absurd member List.not_mem_nil
  sql := fun _ member => absurd member List.not_mem_nil
  logPromise := nofun
  sqlPromise := nofun

/-- No message that fits the buffer is in the first list, or the thread takes
the list before its next test of the flag. -/
def LogDrained (service : Service τ) : Prop :=
  service.logger.any Logger.beforeLog = true ∨ service.log.logList.any Message.fits = false

/-- The same for the second list. -/
def SqlDrained (service : Service τ) : Prop :=
  service.logger.any Logger.beforeSql = true ∨ service.sqlList.any Message.fits = false

/-- The condition on a step: no flush starts while another one uses the buffer,
and `close` is called when both lists are drained. -/
def Timely (service : Service τ) : ServiceAction τ -> Prop
  | .out _ .outToFile _ => service.log.opened = true -> service.flushing = false
  | .logger => service.logger.any Logger.swaps = true -> service.callers.isEmpty = true
  | .close => service.LogDrained ∧ service.SqlDrained
  | _ => True

instance timelyDecidable (service : Service τ) (action : ServiceAction τ) :
    Decidable (service.Timely action) :=
  match action with
  | .out _ .outToFile _ =>
      inferInstanceAs (Decidable (service.log.opened = true -> service.flushing = false))
  | .logger =>
      inferInstanceAs
        (Decidable (service.logger.any Logger.swaps = true -> service.callers.isEmpty = true))
  | .close => inferInstanceAs (Decidable ((_ ∨ _) ∧ (_ ∨ _)))
  | .out _ .outString _ => isTrue trivial
  | .out _ .outError _ => isTrue trivial
  | .out _ .outFatal _ => isTrue trivial
  | .out _ .outWarning _ => isTrue trivial
  | .out _ .outInfo _ => isTrue trivial
  | .out _ .outDebug _ => isTrue trivial
  | .out _ .logScreenAndFile _ => isTrue trivial
  | .init _ _ => isTrue trivial
  | .sqlOut _ _ => isTrue trivial
  | .flush _ => isTrue trivial
  | .open _ _ => isTrue trivial
  | .joined => isTrue trivial

/-! ## Steps and runs -/

variable [DecidableEq τ]

/-- A caller goes on with its flush. -/
theorem next_flush {service after : Service τ} {thread : τ}
    (taken : service.next (.flush thread) = some after) :
    Exists fun flush => Exists fun log => Exists fun following =>
      service.callers.lookup thread = some flush ∧ Log.Flushes service.log flush log following ∧
      after = { service with log := log, callers := service.proceed thread following } := by
  simp only [next] at taken
  split at taken
  · cases taken
  · next flush present =>
      rcases Log.flushLog_flushes service.log flush with ⟨log, following, returned, flushes⟩
      simp only [returned, Option.map_some] at taken
      cases taken
      exact ⟨flush, log, following, present, flushes, rfl⟩

/-- `close` is called while the thread sleeps, and the next pass of the loop
writes both lists. -/
def orderly : List (ServiceAction Unit) :=
  [.init 2 0, .open true true, .logger, .logger, .out () .outError System.errorLine,
    .sqlOut () System.debugLine, .close] ++ List.replicate 10 .logger ++ [.joined]

/-- The thread has found both lists empty and is about to test the flag.  An
error is accepted, and `close` sets the flag. -/
def late : List (ServiceAction Unit) :=
  [.init 2 0, .open true true] ++ List.replicate 5 .logger ++
    [.out () .outError System.errorLine, .close, .logger, .joined]

end Service

end DarkEden
end ServerTech
