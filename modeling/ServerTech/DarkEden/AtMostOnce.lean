import Mathlib.Data.Option.Basic
import ServerTech.DarkEden.Log
import ServerTech.Foundation.Occurrence

namespace ServerTech
namespace DarkEden

open Transition

/-!
# How often a message is in the file

A message can reach the file through the list of the logger thread and through
the list of the thread that called `outToFile`, and both flushes pack their
strings into the same buffer.  If no flush starts while another one runs, and
no message takes both ways, then every message is in the file at most once.
The invariant accounts for every message: it was written, it is packed into the
buffer, or it waits in a list, and no two of these places hold messages of one
call.
-/

/-! ## Copies -/

/-- How often the bytes of the message stand in the file, one behind the other. -/
def Message.copies (message : Message) (file : List (Option Cell)) : Nat :=
  occurrences (message.cells.map some) file

/-! ## Messages of different calls -/

/-- The messages are of different calls, and all of the calls so far. -/
structure Distinct (messages : List Message) (calls : Nat) : Prop where
  nodup : (messages.map Message.call).Nodup
  earlier : forall message, message ∈ messages -> message.call < calls

namespace Distinct

theorem sublist {messages kept : List Message} {calls : Nat} (distinct : Distinct messages calls)
    (within : kept.Sublist messages) : Distinct kept calls where
  nodup := distinct.nodup.sublist (within.map Message.call)
  earlier := fun message member => distinct.earlier message (within.subset member)

theorem perm {messages others : List Message} {calls : Nat} (distinct : Distinct messages calls)
    (reordered : messages.Perm others) : Distinct others calls where
  nodup := (reordered.map Message.call).nodup_iff.mp distinct.nodup
  earlier := fun message member => distinct.earlier message (reordered.symm.subset member)

/-- The message of a new call is none of the earlier ones. -/
theorem issue {messages : List Message} {calls : Nat} (distinct : Distinct messages calls)
    (text : List UInt8) : Distinct (messages ++ [⟨calls, text⟩]) (calls + 1) where
  nodup := by
    rw [List.map_append, List.map_singleton]
    apply List.Nodup.append distinct.nodup (List.nodup_singleton _)
    intro call member single
    rcases List.mem_map.mp member with ⟨message, among, rfl⟩
    have older := distinct.earlier message among
    rw [List.mem_singleton.mp single] at older
    exact absurd older (Nat.lt_irrefl calls)
  earlier := by
    intro message member
    rcases List.mem_append.mp member with among | single
    · exact Nat.lt_succ_of_lt (distinct.earlier message among)
    · rw [List.mem_singleton.mp single]
      exact Nat.lt_succ_self calls

end Distinct

/-! ## The account -/

/-- A thread that is not flushing has nothing left and nothing packed. -/
def Flush.idle : Flush where
  rest := []
  pos := 0

/-- `flushLog` does not skip the message. -/
def Message.fits (message : Message) : Bool :=
  decide (message.text.length ≤ logBufferSize)

/-- Where the messages are: the written ones make up the file, the packed ones
make up the buffer up to `pos`, and the others wait. -/
structure Account (log : Log) (calls : Nat) (flush : Flush) (written buffered : List Message) :
    Prop where
  file : log.file = packed written
  buffer : log.buffer.content flush.pos = packed buffered
  distinct : Distinct (written ++ buffered ++ (flush.rest ++ log.logList).filter Message.fits) calls

namespace Account

variable {log after : Log} {calls : Nat} {flush : Flush} {written buffered : List Message}

/-- Writing the buffer to the file moves the packed messages, and if the file is
not open it loses them. -/
theorem writeToFile (account : Account log calls flush written buffered) :
    Exists fun written =>
      Account (log.writeToFile flush.pos) calls ⟨flush.rest, 0⟩ written [] := by
  unfold Log.writeToFile
  cases opened : log.opened with
  | true =>
      rw [if_pos rfl]
      refine ⟨written ++ buffered, ?_, rfl, ?_⟩
      · rw [packed_append, ← account.file, ← account.buffer]
      · rw [List.append_nil]
        exact account.distinct
  | false =>
      rw [if_neg Bool.false_ne_true]
      refine ⟨written, account.file, rfl, ?_⟩
      apply account.distinct.sublist
      rw [List.append_nil]
      exact List.Sublist.append (List.sublist_append_left _ _) (List.Sublist.refl _)

/-- A round of `flushLog` keeps the account. -/
theorem flushLog (account : Account log calls flush written buffered) {following : Option Flush}
    (flushes : Log.Flushes log flush after following) :
    Exists fun written => Exists fun buffered =>
      Account after calls (following.getD .idle) written buffered := by
  cases flushes with
  | @skip message rest pos long =>
      refine ⟨written, buffered, account.file, account.buffer, ?_⟩
      have distinct := account.distinct
      have skipped : ¬ message.fits = true := by
        intro fits
        exact absurd (of_decide_eq_true fits) (Nat.not_le_of_lt long)
      rw [List.cons_append, List.filter_cons_of_neg skipped] at distinct
      exact distinct
  | full =>
      rcases account.writeToFile with ⟨written, account⟩
      exact ⟨written, [], account⟩
  | @pack message rest pos buffer short inside moved =>
      refine ⟨written, buffered ++ [message], account.file, ?_, ?_⟩
      · have content := LogBuffer.memmove_content moved
        rw [message.length_cells, account.buffer] at content
        rw [packed_append, packed_singleton]
        exact content
      · have distinct := account.distinct
        have kept : message.fits = true := decide_eq_true short
        rw [List.cons_append, List.filter_cons_of_pos kept, List.append_assoc] at distinct
        rw [List.append_assoc, List.append_assoc]
        exact distinct
  | @done pos =>
      by_cases pending : 0 < pos
      · rw [if_pos pending]
        rcases account.writeToFile with ⟨written, account⟩
        exact ⟨written, [], account⟩
      · cases Nat.eq_zero_of_not_pos pending
        rw [if_neg pending]
        exact ⟨written, buffered, account⟩

/-- The logger thread takes the whole list. -/
theorem swap (account : Account log calls .idle written buffered) :
    Account { log with logList := [] } calls ⟨log.logList, 0⟩ written buffered := by
  refine ⟨account.file, account.buffer, ?_⟩
  have distinct := account.distinct
  rw [List.append_nil]
  exact distinct

end Account

/-! ## What a call changes -/

/-- The call leaves the buffer and the file as they are, and adds the message to
the list at most once. -/
structure Pushes (log : Log) (message : Message) (after : Log) : Prop where
  file : after.file = log.file
  buffer : after.buffer = log.buffer
  opened : after.opened = log.opened
  logList : after.logList = log.logList ∨ after.logList = log.logList ++ [message]

/-- The condition under which a message of the level goes to the list. -/
def Log.Accepts (log : Log) (level : TLogLevel) : Prop :=
  level.value ≤ log.fileLogLevel ∧ log.logList.length ≤ maxLogCount

instance acceptsDecidable (log : Log) (level : TLogLevel) : Decidable (log.Accepts level) :=
  inferInstanceAs (Decidable (_ ∧ _))

section

variable {log : Log} {message : Message}

theorem Pushes.nothing : Pushes log message log :=
  ⟨rfl, rfl, rfl, .inl rfl⟩

/-- The console does not matter. -/
theorem Pushes.shown {after : Log} (pushes : Pushes (log.outScreen message) message after) :
    Pushes log message after :=
  ⟨pushes.file, pushes.buffer, pushes.opened, pushes.logList⟩

variable (log message)

end

namespace Account

variable {log after : Log} {calls : Nat} {flush : Flush} {written buffered : List Message}

/-- A call that pushes its message keeps the account. -/
theorem push (account : Account log calls flush written buffered) {text : List UInt8}
    (pushes : Pushes log ⟨calls, text⟩ after) :
    Account after (calls + 1) flush written buffered := by
  have issued := account.distinct.issue text
  refine ⟨pushes.file.trans account.file, ?_, ?_⟩
  · rw [pushes.buffer]
    exact account.buffer
  · apply issued.sublist
    rcases pushes.logList with same | longer
    · rw [same]
      exact List.sublist_append_left _ _
    · rw [longer, ← List.append_assoc, List.filter_append, ← List.append_assoc]
      exact List.Sublist.append (List.Sublist.refl _) List.filter_sublist

end Account

/-! ## Runs -/

namespace System

variable {τ : Type}

/-- At most one thread is inside `flushLog`, and every message is in one place. -/
def Once (system : System τ) : Prop :=
  Exists fun thread => Exists fun flush : Option Flush =>
    system.flushes = (flush.map (Prod.mk thread)).toList ∧
    Exists fun written => Exists fun buffered =>
      Account system.log system.calls (flush.getD .idle) written buffered

variable [DecidableEq τ]

/-- The condition on a step: no flush starts while another one runs, and a
message that `outToFile` flushes is not in the list as well, unless it is longer
than the buffer, which neither flush writes. -/
def OneWay (system : System τ) : Action τ -> Prop
  | .startFlush => system.flushes.isEmpty = true
  | .out _ .outToFile text =>
      system.log.opened = true -> system.flushes.isEmpty = true ∧
        (system.log.Accepts .error -> logBufferSize < text.length)
  | _ => True

instance oneWayDecidable (system : System τ) (action : Action τ) :
    Decidable (system.OneWay action) :=
  match action with
  | .startFlush => inferInstanceAs (Decidable (system.flushes.isEmpty = true))
  | .out _ .outToFile text =>
      inferInstanceAs (Decidable (system.log.opened = true -> system.flushes.isEmpty = true ∧
        (system.log.Accepts .error -> logBufferSize < text.length)))
  | .out _ .outString _ => isTrue trivial
  | .out _ .outError _ => isTrue trivial
  | .out _ .outFatal _ => isTrue trivial
  | .out _ .outWarning _ => isTrue trivial
  | .out _ .outInfo _ => isTrue trivial
  | .out _ .outDebug _ => isTrue trivial
  | .out _ .logScreenAndFile _ => isTrue trivial
  | .init _ _ => isTrue trivial
  | .reopen _ => isTrue trivial
  | .flush _ => isTrue trivial

/-- The line `2024-05-01 12:00:00`, with a level name in brackets and a
character. -/
def line (name : List UInt8) (character : UInt8) : List UInt8 :=
  [50, 48, 50, 52, 45, 48, 53, 45, 48, 49, 32, 49, 50, 58, 48, 48, 58, 48, 48, 32] ++
    [91] ++ name ++ [93, 32, character, 10]

/-- With the name `Error`. -/
def errorLine : List UInt8 :=
  line [69, 114, 114, 111, 114] 97

/-- With the name `Debug`. -/
def debugLine : List UInt8 :=
  line [68, 101, 98, 117, 103] 98

/-- The line of `logScreenAndFile` goes through the list, and the line of
`outToFile`, which its level keeps out of the list, through the flush of its
caller. -/
def apart : List (Action Unit) :=
  [.init 1 0, .reopen true, .out () .logScreenAndFile debugLine, .out () .outToFile errorLine,
    .flush (.caller ()), .flush (.caller ()), .startFlush, .flush .logger, .flush .logger]

end System

end DarkEden
end ServerTech
