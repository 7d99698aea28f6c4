import Mathlib.Algebra.Ring.Nat
import Mathlib.Algebra.Ring.Int.Defs
import ServerTech.DarkEden.Log
import ServerTech.Foundation.Packing

namespace ServerTech
namespace DarkEden

/-!
# One flush of the log

`flushLog` packs the strings of a list into the buffer and calls `writeToFile`
when the next one does not fit, and once more at the end.  A string that is longer
than the buffer is skipped.  The test takes the length from an `int`, so it sees
the size modulo `2 ^ 32` and as a signed number.  For a string of `2 ^ 31` bytes
or more this can be a negative number, with which `memmove` leaves the buffer, or
the length of a part of the string, which is then written as if it were all.

A call of its own is modelled here, with the bytes of each `writeToFile` call.
-/

/-! ## The loop -/

/-- `int strlen = str.size()`. -/
def strlen (message : Message) : Int :=
  (message.text.length : Int).bmod (2 ^ 32)

/-- The locals of `flushLog`, the shared buffer and the bytes passed to
`writeToFile`. -/
structure Flushing where
  buffer : LogBuffer
  pos : Nat
  writes : List (List (Option Cell))

namespace Flushing

def writeToFile (flushing : Flushing) : Flushing :=
  { flushing with
    pos := 0
    writes := flushing.writes ++ [flushing.buffer.content flushing.pos] }

/-- Copy the string behind what is packed.  A negative length is a huge `size_t`. -/
def copy (flushing : Flushing) (message : Message) : Option Flushing :=
  if 0 ≤ strlen message then
    (flushing.buffer.memmove flushing.pos (message.cells.take (strlen message).toNat)).map fun buffer =>
      { flushing with
        buffer := buffer
        pos := flushing.pos + (strlen message).toNat }
  else none

/-- One round of the loop. -/
def round (flushing : Flushing) (message : Message) : Option Flushing :=
  if (logBufferSize : Int) < strlen message then some flushing
  else if (logBufferSize : Int) < strlen message + flushing.pos then flushing.writeToFile.copy message
  else flushing.copy message

def rounds : Flushing -> List Message -> Option Flushing
  | flushing, [] => some flushing
  | flushing, message :: messages => (flushing.round message).bind fun next => next.rounds messages

/-- What is behind the loop. -/
def finish (flushing : Flushing) : Flushing :=
  if 0 < flushing.pos then flushing.writeToFile else flushing

end Flushing

/-- `flushLog` of a list, with the bytes of its calls of `writeToFile`. -/
def flushLog (buffer : LogBuffer) (messages : List Message) : Option (List (List (Option Cell))) :=
  (Flushing.rounds ⟨buffer, 0, []⟩ messages).map fun flushing => flushing.finish.writes

/-! ## What a flush should do -/

def Message.size (message : Message) : Nat :=
  message.text.length

/-- The strings that are not longer than the buffer. -/
def kept (messages : List Message) : List Message :=
  messages.filter fun message => message.size ≤ logBufferSize

/-- The calls of `writeToFile` write the kept strings in order.  Each call writes
some of them as a whole, and what is left behind the last call is empty.  No call
is empty or longer than the buffer. -/
structure Lossless (messages : List Message) (writes : List (List (Option Cell))) : Prop where
  content : writes.flatten = packed (kept messages)
  whole : Exists fun groups : List (List Message) => Exists fun rest => groups.flatten ++ rest = kept messages ∧
    (forall message, message ∈ rest -> message.text = []) ∧ writes = groups.map packed
  sizes : forall write, write ∈ writes -> 1 ≤ write.length ∧ write.length ≤ logBufferSize

/-- The length that the code sees is right as far as it matters: a string that is
longer than the buffer looks empty or longer than the buffer. -/
def Measured (message : Message) : Prop :=
  message.size ≤ logBufferSize ∨ strlen message = 0 ∨ (logBufferSize : Int) < strlen message

instance (message : Message) : Decidable (Measured message) :=
  inferInstanceAs (Decidable (_ ∨ _))

/-! ## Lengths -/

theorem length_packed (messages : List Message) :
    (packed messages).length = tally Message.size messages := by
  induction messages with
  | nil => rfl
  | cons message messages inductionHypothesis =>
      rw [← List.singleton_append, packed_append, packed_singleton, List.length_append, inductionHypothesis,
        List.length_map, Message.length_cells, List.singleton_append, tally_cons]
      rfl

theorem strlen_of_short {message : Message} (short : message.size < 2 ^ 31) :
    strlen message = message.size := by
  unfold Message.size at short
  apply Int.bmod_eq_of_le <;> omega

/-- The number of bytes that a round packs. -/
def copied (message : Message) : Nat :=
  if (logBufferSize : Int) < strlen message then 0 else (strlen message).toNat

theorem measured_of_short {message : Message} (short : message.size < 2 ^ 31) : Measured message := by
  rw [Measured, strlen_of_short short]
  omega

theorem kept_append_of_fits (done : List Message) {message : Message} (fits : message.size ≤ logBufferSize) :
    kept (done ++ [message]) = kept done ++ [message] := by
  rw [kept, List.filter_append, List.filter_cons, if_pos (decide_eq_true fits)]
  rfl

theorem kept_append_of_long (done : List Message) {message : Message} (long : ¬ message.size ≤ logBufferSize) :
    kept (done ++ [message]) = kept done := by
  rw [kept, List.filter_append, List.filter_cons,
    if_neg (by rw [decide_eq_false long]; exact Bool.false_ne_true)]
  exact List.append_nil _

/-! ## The rounds -/

/-- Where the kept strings of the finished rounds are: the closed groups were
written, and the open one is in the buffer. -/
structure Ledger (done : List Message) (closed : List (List Message)) (open_ : List Message)
    (flushing : Flushing) : Prop where
  packing : Packing logBufferSize Message.size (kept done) closed open_
  writes : flushing.writes = closed.map packed
  pos : flushing.pos = tally Message.size open_
  content : flushing.buffer.content flushing.pos = packed open_

section Rounds

variable {done : List Message} {closed : List (List Message)} {open_ : List Message}
  {flushing : Flushing} {message : Message}

theorem Ledger.room (ledger : Ledger done closed open_ flushing) : flushing.pos ≤ logBufferSize := by
  rw [ledger.pos]
  exact ledger.packing.room

theorem Ledger.writeToFile (ledger : Ledger done closed open_ flushing) (some_ : 0 < flushing.pos) :
    Ledger done (closed ++ [open_]) [] flushing.writeToFile := by
  refine ⟨ledger.packing.close (by rw [← ledger.pos]; exact some_), ?_, rfl, ?_⟩
  · change flushing.writes ++ [flushing.buffer.content flushing.pos] = _
    rw [ledger.writes, ledger.content, List.map_append]
    rfl
  · exact Block.slice_zero _ _

/-- A string that fits behind what is packed is copied there as a whole. -/
theorem Ledger.copy (ledger : Ledger done closed open_ flushing) (fits : message.size ≤ logBufferSize)
    (room : message.size + flushing.pos ≤ logBufferSize) :
    Exists fun after => flushing.copy message = some after ∧
      Ledger (done ++ [message]) closed (open_ ++ [message]) after := by
  have bound : logBufferSize < 2 ^ 31 := by decide
  have length := strlen_of_short (Nat.lt_of_le_of_lt fits bound)
  have whole : message.cells.take (strlen message).toNat = message.cells := by
    rw [length, Int.toNat_natCast, Message.size, ← message.length_cells, List.take_length]
  have inside : flushing.pos + message.cells.length ≤ logBufferSize := by
    rw [message.length_cells, Nat.add_comm]
    exact room
  rcases LogBuffer.memmove_inside flushing.buffer inside with ⟨buffer, moved⟩
  refine ⟨⟨buffer, flushing.pos + message.size, flushing.writes⟩, ?_, ?_⟩
  · rw [Flushing.copy, whole, moved, length, if_pos (by omega)]
    rfl
  · have packed := LogBuffer.memmove_content moved
    rw [message.length_cells] at packed
    refine ⟨?_, ledger.writes, ?_, ?_⟩
    · rw [kept_append_of_fits done fits]
      refine ledger.packing.extend ?_
      rw [← ledger.pos]
      exact room
    · rw [tally_append, tally_cons, tally_nil, ← ledger.pos]
      rfl
    · rw [packed_append, packed_singleton, ← ledger.content]
      exact packed

/-- One round with a string whose length is right. -/
theorem Ledger.round (ledger : Ledger done closed open_ flushing) (measured : Measured message) :
    Exists fun after => Exists fun closed' => Exists fun open' =>
      flushing.round message = some after ∧ Ledger (done ++ [message]) closed' open' after := by
  have room := ledger.room
  by_cases fits : message.size ≤ logBufferSize
  · have bound : logBufferSize < 2 ^ 31 := by decide
    have length := strlen_of_short (Nat.lt_of_le_of_lt fits bound)
    rw [Flushing.round, length, if_neg (by omega)]
    by_cases full : logBufferSize < message.size + flushing.pos
    · have closes := ledger.writeToFile (by omega)
      rcases closes.copy fits (by rw [closes.pos, tally_nil]; exact fits) with ⟨after, copied, after_⟩
      rw [if_pos (by omega)]
      exact ⟨after, _, _, copied, after_⟩
    · rcases ledger.copy fits (by omega) with ⟨after, copied, after_⟩
      rw [if_neg (by omega)]
      exact ⟨after, _, _, copied, after_⟩
  · have same := kept_append_of_long done fits
    rcases measured with fits_ | empty | long
    · exact absurd fits_ fits
    · rcases @LogBuffer.memmove_inside flushing.buffer flushing.pos [] room with ⟨buffer, moved⟩
      have packed := LogBuffer.memmove_content moved
      rw [List.length_nil, Nat.add_zero, List.map_nil, List.append_nil] at packed
      refine ⟨⟨buffer, flushing.pos, flushing.writes⟩, closed, open_, ?_, ?_⟩
      · rw [Flushing.round, empty, if_neg (by omega), if_neg (by omega), Flushing.copy, empty,
          if_pos (Int.le_refl 0), Int.toNat_zero, List.take_zero, moved]
        rfl
      · refine ⟨?_, ledger.writes, ledger.pos, packed.trans ledger.content⟩
        rw [same]
        exact ledger.packing
    · rw [Flushing.round, if_pos long]
      refine ⟨flushing, closed, open_, rfl, ?_, ledger.writes, ledger.pos, ledger.content⟩
      rw [same]
      exact ledger.packing

theorem Ledger.rounds (ledger : Ledger done closed open_ flushing) {messages : List Message}
    (measured : forall message, message ∈ messages -> Measured message) :
    Exists fun after => Exists fun closed' => Exists fun open' =>
      flushing.rounds messages = some after ∧ Ledger (done ++ messages) closed' open' after := by
  induction messages generalizing done closed open_ flushing with
  | nil =>
      rw [List.append_nil]
      exact ⟨flushing, closed, open_, rfl, ledger⟩
  | cons message messages inductionHypothesis =>
      rcases ledger.round (measured message List.mem_cons_self) with ⟨next, closed', open', first, middle⟩
      rcases inductionHypothesis middle fun other listed => measured other (List.mem_cons_of_mem _ listed)
        with ⟨after, closed'', open'', rest, final⟩
      refine ⟨after, closed'', open'', ?_, ?_⟩
      · rw [Flushing.rounds, first]
        exact rest
      · rw [List.append_assoc] at final
        exact final

end Rounds

/-! ## How much is written -/

namespace Flushing

variable {flushing after : Flushing} {message : Message} {messages : List Message}

/-- The bytes that were written or are in the buffer. -/
def load (flushing : Flushing) : Nat :=
  flushing.writes.flatten.length + flushing.pos

end Flushing

/-! ## A whole call -/

theorem text_of_size_zero {messages : List Message} (zero : tally Message.size messages = 0) :
    forall message, message ∈ messages -> message.text = [] := by
  intro message listed
  have small := weight_le_tally Message.size listed
  rw [zero] at small
  exact List.length_eq_zero_iff.mp (Nat.le_zero.mp small)

/-- What the loop has packed is lossless once the rest of the buffer is written. -/
theorem Ledger.finish {messages open_ : List Message} {closed : List (List Message)} {flushing : Flushing}
    (ledger : Ledger messages closed open_ flushing) : Lossless messages flushing.finish.writes := by
  have lossless : forall {closed : List (List Message)} {open_ : List Message} {flushing : Flushing},
      Ledger messages closed open_ flushing -> tally Message.size open_ = 0 ->
      Lossless messages flushing.writes := by
    intro closed open_ flushing ledger zero
    have empty : packed open_ = [] := by
      apply List.eq_nil_of_length_eq_zero
      rw [length_packed]
      exact zero
    refine ⟨?_, ⟨closed, open_, ledger.packing.order, text_of_size_zero zero, ledger.writes⟩, ?_⟩
    · rw [ledger.writes, ← ledger.packing.order, packed_append, empty, List.append_nil]
      exact packed_flatten closed
    · intro write listed
      rw [ledger.writes] at listed
      rcases List.mem_map.mp listed with ⟨group, member, rfl⟩
      rw [length_packed]
      exact ledger.packing.bounded group member
  unfold Flushing.finish
  split
  · rename_i some_
    exact lossless (ledger.writeToFile some_) rfl
  · rename_i none_
    exact lossless ledger (by rw [← ledger.pos]; omega)

theorem lossless_of_measured (buffer : LogBuffer) {messages : List Message}
    (measured : forall message, message ∈ messages -> Measured message) :
    Exists fun writes => flushLog buffer messages = some writes ∧ Lossless messages writes := by
  have start : Ledger [] [] [] ⟨buffer, 0, []⟩ := ⟨.empty _ _, rfl, rfl, Block.slice_zero _ _⟩
  rcases start.rounds measured with ⟨after, closed, open_, looped, ledger⟩
  refine ⟨after.finish.writes, ?_, ledger.finish⟩
  rw [flushLog, looped]
  rfl

/-- The rounds of a thread in the model of all threads, up to the end of its
call. -/
inductive Log.Flushed : Log -> Flush -> Log -> Prop
  | last {log after : Log} {flush : Flush} (returned : log.flushLog flush = some (after, none)) :
      Flushed log flush after
  | more {log middle after : Log} {flush following : Flush}
      (returned : log.flushLog flush = some (middle, some following))
      (rest : Flushed middle following after) : Flushed log flush after

/-- The file has what was passed to `writeToFile`, behind what was in it before. -/
structure Mirrors (base : List (Option Cell)) (log : Log) (flushing : Flushing) : Prop where
  opened : log.opened = true
  buffer : log.buffer = flushing.buffer
  file : log.file = base ++ flushing.writes.flatten

section Threads

variable {base : List (Option Cell)} {log : Log} {flushing next after : Flushing} {message : Message}

theorem Mirrors.writeToFile (mirrors : Mirrors base log flushing) :
    Mirrors base (log.writeToFile flushing.pos) flushing.writeToFile := by
  rw [Log.writeToFile, if_pos mirrors.opened]
  refine ⟨mirrors.opened, mirrors.buffer, ?_⟩
  change log.file ++ log.buffer.content flushing.pos =
    base ++ (flushing.writes ++ [flushing.buffer.content flushing.pos]).flatten
  rw [mirrors.file, mirrors.buffer, List.flatten_append, List.flatten_singleton, List.append_assoc]

/-- Packing a string is a round of the thread. -/
theorem Mirrors.copy (mirrors : Mirrors base log flushing) (fits : message.size ≤ logBufferSize)
    (room : message.size + flushing.pos ≤ logBufferSize) (copied : flushing.copy message = some next) :
    Exists fun log' => Mirrors base log' next ∧ forall rest,
      log.flushLog ⟨message :: rest, flushing.pos⟩ = some (log', some ⟨rest, next.pos⟩) := by
  have bound : logBufferSize < 2 ^ 31 := by decide
  have length := strlen_of_short (Nat.lt_of_le_of_lt fits bound)
  have whole : message.cells.take message.size = message.cells := by
    rw [Message.size, ← message.length_cells, List.take_length]
  rw [Flushing.copy, length, if_pos (by omega), Int.toNat_natCast, whole] at copied
  rcases Option.map_eq_some_iff.mp copied with ⟨buffer, moved, rfl⟩
  refine ⟨{ log with buffer := buffer }, ⟨mirrors.opened, rfl, mirrors.file⟩, ?_⟩
  intro rest
  have short : ¬ logBufferSize < message.text.length := Nat.not_lt.mpr fits
  have free : ¬ logBufferSize < message.text.length + flushing.pos := Nat.not_lt.mpr room
  rw [Log.flushLog, if_neg short, if_neg free, mirrors.buffer, moved]
  rfl

/-- A round of the loop is one round of the thread, or two when the buffer is
full. -/
theorem Mirrors.round (mirrors : Mirrors base log flushing) (short : message.size < 2 ^ 31)
    (returned : flushing.round message = some next) :
    Exists fun log' => Mirrors base log' next ∧ forall rest final, Log.Flushed log' ⟨rest, next.pos⟩ final ->
      Log.Flushed log ⟨message :: rest, flushing.pos⟩ final := by
  have length := strlen_of_short short
  rw [Flushing.round, length] at returned
  by_cases fits : message.size ≤ logBufferSize
  · rw [if_neg (by omega)] at returned
    by_cases full : logBufferSize < message.size + flushing.pos
    · rw [if_pos (by omega)] at returned
      rcases mirrors.writeToFile.copy fits fits returned with ⟨log', mirrors', packs⟩
      refine ⟨log', mirrors', ?_⟩
      intro rest final flushed
      have first : log.flushLog ⟨message :: rest, flushing.pos⟩ =
          some (log.writeToFile flushing.pos, some ⟨message :: rest, 0⟩) := by
        have fits : ¬ logBufferSize < message.text.length := Nat.not_lt.mpr fits
        have full : logBufferSize < message.text.length + flushing.pos := full
        rw [Log.flushLog, if_neg fits, if_pos full]
      exact .more first (.more (packs rest) flushed)
    · rw [if_neg (by omega)] at returned
      rcases mirrors.copy fits (Nat.le_of_not_lt full) returned with ⟨log', mirrors', packs⟩
      exact ⟨log', mirrors', fun rest final flushed => .more (packs rest) flushed⟩
  · rw [if_pos (by omega)] at returned
    cases returned
    refine ⟨log, mirrors, ?_⟩
    intro rest final flushed
    have skipped : log.flushLog ⟨message :: rest, flushing.pos⟩ = some (log, some ⟨rest, flushing.pos⟩) := by
      have long : logBufferSize < message.text.length := Nat.lt_of_not_le fits
      rw [Log.flushLog, if_pos long]
    exact .more skipped flushed

theorem Mirrors.rounds (mirrors : Mirrors base log flushing) {messages : List Message}
    (short : forall message, message ∈ messages -> message.size < 2 ^ 31)
    (returned : flushing.rounds messages = some after) :
    Exists fun final => Log.Flushed log ⟨messages, flushing.pos⟩ final ∧
      final.file = base ++ after.finish.writes.flatten := by
  induction messages generalizing log flushing with
  | nil =>
      cases returned
      refine ⟨_, .last rfl, ?_⟩
      unfold Flushing.finish
      split
      · exact mirrors.writeToFile.file
      · exact mirrors.file
  | cons message messages inductionHypothesis =>
      rcases Option.bind_eq_some_iff.mp returned with ⟨next, first, rest⟩
      rcases mirrors.round (short message List.mem_cons_self) first with ⟨log', mirrors', before⟩
      rcases inductionHypothesis mirrors' (fun other listed => short other (List.mem_cons_of_mem _ listed)) rest
        with ⟨final, flushed, file⟩
      exact ⟨final, before messages final flushed, file⟩

/-- A flush of a thread that is not disturbed writes to an open file what one call
of `flushLog` writes. -/
theorem flushed_of_flushLog (log : Log) (opened : log.opened = true) {messages : List Message}
    (short : forall message, message ∈ messages -> message.size < 2 ^ 31)
    {writes : List (List (Option Cell))} (returned : flushLog log.buffer messages = some writes) :
    Exists fun final => Log.Flushed log ⟨messages, 0⟩ final ∧ final.file = log.file ++ writes.flatten := by
  rcases Option.map_eq_some_iff.mp returned with ⟨after, looped, rfl⟩
  have start : Mirrors log.file log ⟨log.buffer, 0, []⟩ := ⟨opened, rfl, (List.append_nil _).symm⟩
  exact start.rounds short looped

end Threads

end DarkEden
end ServerTech
