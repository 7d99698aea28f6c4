import ServerTech.DarkEden.Flushing
import ServerTech.Foundation.CString
import ServerTech.Foundation.Numeral

namespace ServerTech
namespace DarkEden

open Numeral

/-!
# One line of the log

`logString` puts the time, the level, the source and the formatted message of a
call one behind the other into the buffer of an `InternalLogger`, which returns
them as a string.  The cursor is moved by what the library returns.  `snprintf` and
`vsnprintf` are `_snprintf` and `_vsnprintf` there, which leave out the zero when
only the text fits, and return -1 when not even the text does.

The zero is always found as long as the texts fit into the buffer together with one
zero.  A text that goes to the last byte leaves a buffer that has no end, and a
longer one moves the cursor back.
-/

/-! ## The library -/

/-- What a call leaves in the `room` bytes behind its pointer, and what it
returns. -/
structure Printed (room : Nat) where
  bytes : List UInt8
  inside : bytes.length ≤ room
  result : Int

/-- `_snprintf` and `_vsnprintf` with the formatted text. -/
def _snprintf (text : List UInt8) (room : Nat) : Printed room :=
  if fits : text.length < room then
    { bytes := text ++ [0]
      inside := by
        rw [List.length_append]
        exact fits
      result := text.length }
  else if exact : text.length = room then
    { bytes := text
      inside := Nat.le_of_eq exact
      result := text.length }
  else
    { bytes := text.take room
      inside := List.length_take_le _ _
      result := -1 }

/-- `strftime`.  Without room for the text and its zero the bytes are
indeterminate. -/
def strftime (text indeterminate : List UInt8) (room : Nat) : Printed room :=
  if fits : text.length < room then
    { bytes := text ++ [0]
      inside := by
        rw [List.length_append]
        exact fits
      result := text.length }
  else
    { bytes := indeterminate.take room
      inside := List.length_take_le _ _
      result := 0 }

/-! ## The class -/

/-- `StrBufSize`. -/
def strBufSize : Nat := 128 * 1024

/-- The fields.  The cursor is a `uint32`. -/
structure InternalLogger where
  cursor : Nat
  buffer : List UInt8
  allocated : buffer.length = strBufSize

/-- `m_Cursor += result`. -/
def advance (cursor : Nat) (result : Int) : Nat :=
  ((cursor + result) % 2 ^ 32).toNat

namespace InternalLogger

/-- A new object.  The buffer is not initialised. -/
def new (memory : { cells : List UInt8 // cells.length = strBufSize }) : InternalLogger where
  cursor := 0
  buffer := memory.val
  allocated := memory.property

/-- Write bytes at the cursor, which fit there. -/
def overwrite (logger : InternalLogger) (bytes : List UInt8)
    (inside : logger.cursor + bytes.length ≤ strBufSize) : InternalLogger :=
  { logger with
    buffer := Block.overwrite logger.buffer logger.cursor bytes
    allocated := by
      rw [Block.length_overwrite, logger.allocated]
      rw [logger.allocated]
      exact inside }

/-- What the three calls that write have in common. -/
def print (logger : InternalLogger) (call : forall room, Printed room) : InternalLogger :=
  if open_ : logger.cursor < strBufSize then
    let printed := call (strBufSize - logger.cursor)
    let written := logger.overwrite printed.bytes (by have inside := printed.inside; omega)
    { written with cursor := advance logger.cursor printed.result }
  else logger

def writeTime (logger : InternalLogger) (lt indeterminate : List UInt8) : InternalLogger :=
  logger.print (strftime lt indeterminate)

/-- The format is `"%s "`. -/
def writeLog (logger : InternalLogger) (log : List UInt8) : InternalLogger :=
  logger.print (_snprintf (log ++ bytes " "))

/-- The other `writeLog`, with the text that the format and its arguments give. -/
def writeLogArgs (logger : InternalLogger) (formatted : List UInt8) : InternalLogger :=
  logger.print (_snprintf formatted)

/-- `m_Buffer[m_Cursor] = byte`.  There is no result outside the buffer. -/
def put (logger : InternalLogger) (byte : UInt8) : Option InternalLogger :=
  if inside : logger.cursor < strBufSize then some (logger.overwrite [byte] inside) else none

/-- The end of a line, where there is room for it. -/
def endLine (logger : InternalLogger) : Option InternalLogger :=
  if advance logger.cursor 1 < strBufSize then
    (logger.put 10).bind fun ended => put { ended with cursor := advance ended.cursor 1 } 0
  else some logger

/-- There is no result when the object writes outside of its buffer or reads on
behind it. -/
def getLogString (logger : InternalLogger) : Option (List UInt8) :=
  if 0 < logger.cursor then logger.endLine.bind fun ended => CString.read 0 ended.buffer else some []

end InternalLogger

/-! ## A sequence of calls -/

/-- A call with the text that it is to write.  The time has the bytes that a failed
call leaves. -/
inductive LineCall
  | writeTime (lt indeterminate : List UInt8)
  | writeLog (log : List UInt8)
  | writeLogArgs (formatted : List UInt8)
  deriving DecidableEq

def LineCall.text : LineCall -> List UInt8
  | writeTime lt _ => lt
  | writeLog log => log ++ bytes " "
  | writeLogArgs formatted => formatted

def InternalLogger.perform (logger : InternalLogger) : LineCall -> InternalLogger
  | .writeTime lt indeterminate => logger.writeTime lt indeterminate
  | .writeLog log => logger.writeLog log
  | .writeLogArgs formatted => logger.writeLogArgs formatted

def InternalLogger.run (logger : InternalLogger) (calls : List LineCall) : InternalLogger :=
  calls.foldl InternalLogger.perform logger

/-- The texts of the calls, one behind the other. -/
def texts (calls : List LineCall) : List UInt8 :=
  calls.flatMap LineCall.text

/-- `TLogLevelNames`. -/
def TLogLevel.name : TLogLevel -> String
  | .always => ""
  | .fatal => "[Fatal]"
  | .error => "[Error]"
  | .warning => "[Warning]"
  | .debug => "[Debug]"
  | .info => "[Info ]"

/-- The calls of `logString`.  A source may be a null pointer. -/
def lineCalls (level : TLogLevel) (source : Option (List UInt8)) (lt indeterminate str : List UInt8) :
    List LineCall :=
  [.writeTime lt indeterminate] ++
    (if TLogLevel.always.value < level.value then [.writeLog (bytes level.name)] else []) ++
    (match source with
      | none => []
      | some source => if source = [] then [] else [.writeLog source]) ++
    [.writeLogArgs str]

def logString (memory : { cells : List UInt8 // cells.length = strBufSize }) (level : TLogLevel)
    (source : Option (List UInt8)) (lt indeterminate str : List UInt8) : Option (List UInt8) :=
  ((InternalLogger.new memory).run (lineCalls level source lt indeterminate str)).getLogString

/-! ## What a line should be -/

/-- The object and what it returns when the text was written to it.  The string is
as much as fits of the text and a newline: the newline is there if something was
written and the newline and the zero have room behind it. -/
structure Terminated (logger : InternalLogger) (text : List UInt8) : Prop where
  cursor : logger.cursor ≤ strBufSize
  ended : 0 < logger.cursor ->
    Exists fun ended => logger.endLine = some ended ∧ 0 ∈ ended.buffer
  returned : Exists fun line => logger.getLogString = some line ∧ line <+: text ++ [10] ∧
    (0 ∉ text -> (line = text ++ [10] <-> 0 < text.length ∧ text.length + 1 < strBufSize))

/-! ## The calls -/

theorem advance_nat {cursor size : Nat} (small : cursor + size < 2 ^ 32) :
    advance cursor size = cursor + size := by
  unfold advance
  omega

theorem advance_one {cursor : Nat} (inside : cursor < strBufSize) : advance cursor 1 = cursor + 1 := by
  have small : strBufSize < 2 ^ 32 := by decide
  have one : cursor + 1 < 2 ^ 32 := by omega
  exact advance_nat one

/-- The call leaves the text with a zero, and returns its length, where both have
room. -/
def Prints (call : forall room, Printed room) (text : List UInt8) : Prop :=
  forall room, text.length < room ->
    (call room).bytes = text ++ [0] ∧ (call room).result = text.length

theorem snprintf_prints (text : List UInt8) : Prints (_snprintf text) text := by
  intro room fits
  rw [_snprintf, dif_pos fits]
  exact ⟨rfl, rfl⟩

theorem strftime_prints (text indeterminate : List UInt8) : Prints (strftime text indeterminate) text := by
  intro room fits
  rw [strftime, dif_pos fits]
  exact ⟨rfl, rfl⟩

namespace InternalLogger

variable {logger : InternalLogger} {call : forall room, Printed room}

theorem print_cursor (open_ : logger.cursor < strBufSize) :
    (logger.print call).cursor = advance logger.cursor (call (strBufSize - logger.cursor)).result := by
  rw [print, dif_pos open_]

theorem print_buffer (open_ : logger.cursor < strBufSize) :
    (logger.print call).buffer =
      Block.overwrite logger.buffer logger.cursor (call (strBufSize - logger.cursor)).bytes := by
  rw [print, dif_pos open_]
  rfl

theorem put_eq (inside : logger.cursor < strBufSize) (byte : UInt8) :
    logger.put byte = some (logger.overwrite [byte] inside) :=
  dif_pos inside

end InternalLogger

/-! ## Lines that fit -/

/-- The text is in the buffer, with a zero behind it once something was
written. -/
structure Holds (logger : InternalLogger) (text : List UInt8) : Prop where
  cursor : logger.cursor = text.length
  room : text.length < strBufSize
  starts : 0 < text.length -> CString.Starts 0 logger.buffer text

theorem holds_new (memory : { cells : List UInt8 // cells.length = strBufSize }) :
    Holds (InternalLogger.new memory) [] :=
  ⟨rfl, by decide, nofun⟩

section Fitting

variable {logger : InternalLogger} {text more : List UInt8}

theorem Holds.open_ (holds : Holds logger text) : logger.cursor < strBufSize := by
  rw [holds.cursor]
  exact holds.room

theorem Holds.content (holds : Holds logger text) :
    Block.slice logger.buffer 0 text.length = text := by
  rcases Nat.eq_zero_or_pos text.length with none_ | some_
  · rw [none_, Block.slice_zero, List.length_eq_zero_iff.mp none_]
  · exact (holds.starts some_).content

/-- A text that fits together with its zero is written behind the others. -/
theorem Holds.print (holds : Holds logger text) {call : forall room, Printed room}
    (prints : Prints call more) (fits : text.length + more.length < strBufSize) :
    Holds (logger.print call) (text ++ more) := by
  have small : strBufSize < 2 ^ 32 := by decide
  rcases prints (strBufSize - logger.cursor) (by rw [holds.cursor]; omega) with ⟨bytes, result⟩
  refine ⟨?_, ?_, fun _ => ?_⟩
  · rw [InternalLogger.print_cursor holds.open_, result, holds.cursor, List.length_append]
    exact advance_nat (by omega)
  · rw [List.length_append]
    exact fits
  · rw [InternalLogger.print_buffer holds.open_, bytes, holds.cursor]
    apply CString.starts_overwrite holds.content
    rw [logger.allocated, List.length_append]
    exact fits

theorem Holds.perform (holds : Holds logger text) (call : LineCall)
    (fits : text.length + call.text.length < strBufSize) : Holds (logger.perform call) (text ++ call.text) := by
  cases call with
  | writeTime lt indeterminate => exact holds.print (strftime_prints lt indeterminate) fits
  | writeLog log => exact holds.print (snprintf_prints _) fits
  | writeLogArgs formatted => exact holds.print (snprintf_prints formatted) fits

theorem Holds.run (holds : Holds logger text) {calls : List LineCall}
    (fits : text.length + (texts calls).length < strBufSize) :
    Holds (logger.run calls) (text ++ texts calls) := by
  induction calls generalizing logger text with
  | nil =>
      rw [texts, List.flatMap_nil, List.append_nil]
      exact holds
  | cons call calls inductionHypothesis =>
      have split : texts (call :: calls) = call.text ++ texts calls := List.flatMap_cons
      rw [split, List.length_append] at fits
      have next := holds.perform call (by omega)
      have rest := inductionHypothesis next (by rw [List.length_append]; omega)
      rw [split, ← List.append_assoc]
      exact rest

/-- What is returned for a text that fits. -/
def lineOf (text : List UInt8) : List UInt8 :=
  if text.length + 1 < strBufSize then text ++ [10] else text

theorem lineOf_begins (text : List UInt8) : lineOf text <+: text ++ [10] := by
  unfold lineOf
  split
  · exact List.prefix_refl _
  · exact List.prefix_append _ _

theorem lineOf_eq_iff (text : List UInt8) :
    lineOf text = text ++ [10] <-> text.length + 1 < strBufSize := by
  constructor
  · intro whole
    by_contra full
    rw [lineOf, if_neg full] at whole
    have lengths := congrArg List.length whole
    rw [List.length_append] at lengths
    exact Nat.succ_ne_self _ lengths.symm
  · exact fun room => if_pos room

/-- The newline and the zero behind what the buffer holds up to the cursor. -/
theorem endLine_content (cursor : logger.cursor = text.length)
    (content : Block.slice logger.buffer 0 text.length = text) (room : text.length + 1 < strBufSize) :
    Exists fun ended => logger.endLine = some ended ∧ CString.Starts 0 ended.buffer (text ++ [10]) := by
  have open_ : logger.cursor < strBufSize := by omega
  have next : advance logger.cursor 1 = text.length + 1 := by
    rw [advance_one open_, cursor]
  have fits : (text ++ [10]).length < strBufSize := by
    rw [List.length_append]
    exact room
  have newline : Block.slice (logger.overwrite [10] open_).buffer 0 (text ++ [10]).length = text ++ [10] := by
    change Block.slice (Block.overwrite logger.buffer logger.cursor [10]) 0 _ = _
    rw [cursor]
    apply Block.slice_overwrite_behind content
    rw [logger.allocated]
    exact Nat.le_of_lt fits
  have starts := @CString.starts_overwrite _ 0 _ _ [] newline (by
    rw [List.append_nil, (logger.overwrite [10] open_).allocated]
    exact fits)
  rw [List.append_nil, List.length_append] at starts
  have inside : advance (logger.overwrite [10] open_).cursor 1 < strBufSize := by
    change advance logger.cursor 1 < strBufSize
    rw [next]
    exact room
  unfold InternalLogger.endLine
  rw [next, if_pos room, InternalLogger.put_eq open_, Option.bind_some]
  refine ⟨_, InternalLogger.put_eq inside 0, ?_⟩
  change CString.Starts 0 (Block.overwrite (logger.overwrite [10] open_).buffer
    (advance logger.cursor 1) [0]) (text ++ [10])
  rw [next]
  exact starts

theorem Holds.endLine (holds : Holds logger text) (some_ : 0 < text.length) :
    Exists fun ended => logger.endLine = some ended ∧ CString.Starts 0 ended.buffer (lineOf text) := by
  by_cases room : text.length + 1 < strBufSize
  · rw [lineOf, if_pos room]
    exact endLine_content holds.cursor holds.content room
  · rw [lineOf, if_neg room, InternalLogger.endLine, advance_one holds.open_, holds.cursor, if_neg room]
    exact ⟨logger, rfl, holds.starts some_⟩

theorem Holds.getLogString (holds : Holds logger text) :
    logger.getLogString = some (if 0 < text.length then CString.front 0 (lineOf text) else []) := by
  unfold InternalLogger.getLogString
  rw [holds.cursor]
  split
  · rename_i some_
    rcases holds.endLine some_ with ⟨ended, put, starts⟩
    rw [put, Option.bind_some, starts.read]
  · rfl

theorem Holds.terminated (holds : Holds logger text) : Terminated logger text := by
  refine ⟨Nat.le_of_lt holds.open_, ?_, _, holds.getLogString, ?_, ?_⟩
  · intro some_
    rw [holds.cursor] at some_
    rcases holds.endLine some_ with ⟨ended, put, starts⟩
    exact ⟨ended, put, starts.mem⟩
  · split
    · exact (CString.front_begins 0 _).trans (lineOf_begins text)
    · exact List.nil_prefix
  · intro unmarked
    have whole : CString.front 0 (lineOf text) = lineOf text := by
      apply CString.front_eq_self
      intro listed
      rcases List.mem_append.mp ((lineOf_begins text).subset listed) with inside | inside
      · exact unmarked inside
      · exact absurd (List.mem_singleton.mp inside) (by decide)
    rw [whole]
    split
    · rename_i some_
      rw [lineOf_eq_iff]
      exact ⟨fun room => ⟨some_, room⟩, fun both => both.2⟩
    · rename_i none_
      constructor
      · intro empty
        exact absurd (congrArg List.length empty) (by rw [List.length_append]; exact nofun)
      · exact fun both => absurd both.1 none_

end Fitting

/-! ## Lines that do not fit -/

theorem getLogString_length {logger : InternalLogger} {line : List UInt8}
    (returned : logger.getLogString = some line) : line.length < strBufSize := by
  unfold InternalLogger.getLogString at returned
  split at returned
  · rcases Option.bind_eq_some_iff.mp returned with ⟨ended, -, read⟩
    rw [← ended.allocated]
    exact CString.read_length_lt read
  · cases returned
    decide

section Long

variable {logger : InternalLogger} {text more : List UInt8}

/-- A text that goes to the last byte leaves a buffer without a zero of its own. -/
theorem Holds.full (holds : Holds logger text) (exact_ : text.length + more.length = strBufSize) :
    (logger.print (_snprintf more)).cursor = strBufSize ∧
      (logger.print (_snprintf more)).buffer = text ++ more := by
  have small : strBufSize < 2 ^ 32 := by decide
  have rest : strBufSize - logger.cursor = more.length := by
    rw [holds.cursor]
    omega
  have printed : (_snprintf more more.length).bytes = more ∧
      (_snprintf more more.length).result = more.length := by
    rw [_snprintf, dif_neg (Nat.lt_irrefl _), dif_pos rfl]
    exact ⟨rfl, rfl⟩
  constructor
  · rw [InternalLogger.print_cursor holds.open_, rest, printed.2, holds.cursor,
      advance_nat (by omega)]
    exact exact_
  · have whole : (text ++ more).length = strBufSize := by
      rw [List.length_append]
      exact exact_
    have buffer := @InternalLogger.print_buffer logger (_snprintf more) holds.open_
    rw [rest, printed.1, holds.cursor] at buffer
    have written := Block.slice_overwrite_behind holds.content (by rw [whole, logger.allocated])
    rw [← buffer, whole, Block.slice, List.drop_zero,
      List.take_of_length_le (Nat.le_of_eq (logger.print (_snprintf more)).allocated)] at written
    exact written

/-- A text that is longer than what is left moves the cursor back. -/
theorem Holds.cut (holds : Holds logger text) (long : strBufSize < text.length + more.length) :
    (logger.print (_snprintf more)).cursor = advance text.length (-1) := by
  have bound := holds.room
  rw [InternalLogger.print_cursor holds.open_, holds.cursor, _snprintf, dif_neg (by omega), dif_neg (by omega)]

/-- Then the newline takes the place of the last byte of the texts in front, and of
the long text nothing is returned. -/
theorem Holds.cut_returned (holds : Holds logger text) (some_ : 1 < text.length)
    (long : strBufSize < text.length + more.length) :
    (logger.print (_snprintf more)).getLogString = some (CString.front 0 (text.dropLast ++ [10])) := by
  have bound := holds.room
  have small : strBufSize < 2 ^ 32 := by decide
  have before : text.dropLast.length < text.length := by
    rw [List.length_dropLast]
    omega
  have cursor : (logger.print (_snprintf more)).cursor = text.dropLast.length := by
    rw [holds.cut long, List.length_dropLast, advance]
    omega
  have content : Block.slice (logger.print (_snprintf more)).buffer 0 text.dropLast.length = text.dropLast := by
    rw [InternalLogger.print_buffer holds.open_, holds.cursor, Block.slice_overwrite_before,
      ← Block.take_slice _ _ (Nat.le_of_lt before), holds.content, List.length_dropLast,
      ← List.dropLast_eq_take]
    · rw [logger.allocated]
      exact Nat.le_of_lt bound
    · omega
  rcases endLine_content cursor content (by omega) with ⟨ended, put, starts⟩
  have shown : 0 < text.dropLast.length := by
    rw [List.length_dropLast]
    omega
  rw [InternalLogger.getLogString, cursor, if_pos shown, put, Option.bind_some, starts.read]

/-- Nothing ends a buffer that the texts fill. -/
theorem unterminated {logger : InternalLogger} (full : logger.cursor = strBufSize)
    (unmarked : 0 ∉ logger.buffer) :
    logger.getLogString = none ∧ ¬ Exists fun ended => logger.endLine = some ended ∧ 0 ∈ ended.buffer := by
  have same : logger.endLine = some logger := by
    unfold InternalLogger.endLine
    rw [full]
    exact if_neg (by decide)
  constructor
  · rw [InternalLogger.getLogString, full, if_pos (by decide), same, Option.bind_some,
      CString.read_unmarked unmarked]
  · rintro ⟨ended, put, marked⟩
    cases same.symm.trans put
    exact unmarked marked

/-- The calls of `_snprintf`. -/
def LineCall.formatted : LineCall -> Bool
  | writeTime _ _ => false
  | writeLog _ => true
  | writeLogArgs _ => true

theorem perform_formatted (logger : InternalLogger) {call : LineCall} (formatted : call.formatted = true) :
    logger.perform call = logger.print (_snprintf call.text) := by
  cases call with
  | writeTime lt indeterminate => cases formatted
  | writeLog log => rfl
  | writeLogArgs text => rfl

end Long

/-! ## Whole lines -/

section Runs

variable (memory : { cells : List UInt8 // cells.length = strBufSize })

theorem holds_run {calls : List LineCall} (fits : (texts calls).length < strBufSize) :
    Holds ((InternalLogger.new memory).run calls) (texts calls) :=
  (holds_new memory).run (by rw [List.length_nil, Nat.zero_add]; exact fits)

/-- The object is right after every sequence of calls whose texts fit into the
buffer together with one zero. -/
theorem run_terminated {calls : List LineCall} (fits : (texts calls).length < strBufSize) :
    Terminated ((InternalLogger.new memory).run calls) (texts calls) :=
  (holds_run memory fits).terminated

/-- A line is returned as a whole if and only if it fits. -/
theorem run_whole_iff {calls : List LineCall} (unmarked : 0 ∉ texts calls) :
    ((InternalLogger.new memory).run calls).getLogString = some (texts calls ++ [10]) <->
      0 < (texts calls).length ∧ (texts calls).length + 1 < strBufSize := by
  constructor
  · intro whole
    have short := getLogString_length whole
    rw [List.length_append, List.length_singleton] at short
    rcases (holds_run memory (Nat.lt_of_succ_lt short)).terminated.returned with ⟨line, returned, -, fits⟩
    cases whole.symm.trans returned
    exact (fits unmarked).mp rfl
  · intro fits
    rcases (holds_run memory (Nat.lt_of_succ_lt fits.2)).terminated.returned with ⟨line, returned, -, whole⟩
    rw [returned, (whole unmarked).mpr fits]

/-- The string of a call of the log. -/
theorem logString_whole_iff {level : TLogLevel} {source : Option (List UInt8)}
    {lt indeterminate str : List UInt8} (some_ : 0 < lt.length)
    (unmarked : 0 ∉ texts (lineCalls level source lt indeterminate str)) :
    logString memory level source lt indeterminate str =
        some (texts (lineCalls level source lt indeterminate str) ++ [10]) <->
      (texts (lineCalls level source lt indeterminate str)).length + 1 < strBufSize := by
  have starts : lt <+: texts (lineCalls level source lt indeterminate str) := by
    unfold texts lineCalls
    rw [List.append_assoc, List.append_assoc, List.flatMap_append, List.flatMap_singleton]
    exact List.prefix_append _ _
  rw [logString, run_whole_iff memory unmarked]
  exact and_iff_right (Nat.lt_of_lt_of_le some_ starts.length_le)

section Last

variable {calls : List LineCall} {call : LineCall} (formatted : call.formatted = true)
  (room : (texts calls).length < strBufSize)

include formatted

theorem run_last : (InternalLogger.new memory).run (calls ++ [call]) =
    ((InternalLogger.new memory).run calls).print (_snprintf call.text) := by
  rw [InternalLogger.run, List.foldl_append]
  exact perform_formatted _ formatted

include room

/-- A line whose last text goes to the last byte has no end. -/
theorem run_full (exact_ : (texts calls).length + call.text.length = strBufSize)
    (unmarked : 0 ∉ texts calls ++ call.text) :
    ((InternalLogger.new memory).run (calls ++ [call])).getLogString = none ∧
      ¬ Terminated ((InternalLogger.new memory).run (calls ++ [call])) (texts (calls ++ [call])) := by
  rcases (holds_run memory room).full exact_ with ⟨cursor, buffer⟩
  have wrong := unterminated cursor (by rw [buffer]; exact unmarked)
  rw [run_last memory formatted]
  refine ⟨wrong.1, fun terminated => wrong.2 (terminated.ended ?_)⟩
  rw [cursor]
  decide

/-- A line whose last text is too long loses all of it, and one byte more. -/
theorem run_cut (some_ : 1 < (texts calls).length)
    (long : strBufSize < (texts calls).length + call.text.length) :
    ((InternalLogger.new memory).run (calls ++ [call])).getLogString =
      some (CString.front 0 ((texts calls).dropLast ++ [10])) := by
  rw [run_last memory formatted]
  exact (holds_run memory room).cut_returned some_ long

end Last

end Runs

/-! ## Lines in the log list -/

/-- Strings that `logString` returned are flushed without a loss. -/
theorem flushLog_logged (buffer : LogBuffer) {messages : List Message}
    (logged : forall message, message ∈ messages -> Exists fun logger : InternalLogger =>
      logger.getLogString = some message.text) :
    Exists fun writes => flushLog buffer messages = some writes ∧ Lossless messages writes := by
  apply lossless_of_measured
  intro message listed
  rcases logged message listed with ⟨logger, returned⟩
  have short := getLogString_length returned
  have small : strBufSize < 2 ^ 31 := by decide
  exact measured_of_short (Nat.lt_trans short small)

/-! ## Messages of the longest kind -/

/-- Memory that a new object may find. -/
def garbage : { cells : List UInt8 // cells.length = strBufSize } :=
  ⟨List.replicate strBufSize 7, List.length_replicate⟩

/-- What `"%F %T "` may give. -/
def noon : List UInt8 :=
  bytes "2024-05-01 12:00:00 "

theorem run_terminated_error :
    Terminated
      ((InternalLogger.new garbage).run (lineCalls .error (some (bytes "Login")) noon [] (bytes "refused")))
      (texts (lineCalls .error (some (bytes "Login")) noon [] (bytes "refused"))) :=
  run_terminated garbage (by decide +kernel)

/-- A message that goes to the last byte leaves a line without an end, and one that
is a byte longer is lost.  Without a time in front of it the cursor leaves the
buffer. -/
theorem run_unterminated :
    ¬ Terminated
      ((InternalLogger.new garbage).run
        (lineCalls .always none noon [] (List.replicate (strBufSize - 20) 97)))
      (texts (lineCalls .always none noon [] (List.replicate (strBufSize - 20) 97))) ∧
    logString garbage .always none noon [] (List.replicate (strBufSize - 20) 97) = none ∧
    logString garbage .always none noon [] (List.replicate (strBufSize - 19) 97) =
      some (bytes "2024-05-01 12:00:00\n") ∧
    ((InternalLogger.new garbage).run
      [.writeLogArgs (List.replicate (strBufSize + 1) 97)]).cursor = 2 ^ 32 - 1 := by
  have large : strBufSize = 131072 := rfl
  have size : (texts [.writeTime noon []]).length = 20 := by decide +kernel
  have room : (texts [.writeTime noon []]).length < strBufSize := by omega
  have letters : forall count,
      (LineCall.writeLogArgs (List.replicate count 97)).text.length = count :=
    fun count => List.length_replicate
  have unmarked : 0 ∉ texts [.writeTime noon []] ++
      (LineCall.writeLogArgs (List.replicate (strBufSize - 20) 97)).text := by
    intro listed
    rcases List.mem_append.mp listed with inside | inside
    · revert inside
      decide +kernel
    · exact absurd (List.eq_of_mem_replicate inside) (by decide)
  have full := run_full garbage rfl room (by rw [size, letters]; omega) unmarked
  have cut := @run_cut garbage [.writeTime noon []] (.writeLogArgs (List.replicate (strBufSize - 19) 97)) rfl
    room (by omega) (by rw [size, letters]; omega)
  have long := @Holds.cut _ _ (List.replicate (strBufSize + 1) 97) (holds_new garbage)
    (by rw [List.length_nil, List.length_replicate]; omega)
  exact ⟨full.2, full.1, cut.trans (by decide +kernel), long.trans (by decide)⟩

end DarkEden
end ServerTech
