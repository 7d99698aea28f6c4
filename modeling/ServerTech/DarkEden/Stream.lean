import ServerTech.DarkEden.AtMostOnce

namespace ServerTech
namespace DarkEden

/-!
# Streams of messages

A list of accepted messages, its file and the flush that takes from the one to
the other.  A message is in the list, on its way, or in the file, and no step
loses it as long as the flush has the buffer to itself and its file is open.
-/

/-! ## Files -/

/-- The bytes of the message stand in the file. -/
def Message.Written (message : Message) (file : List (Option Cell)) : Prop :=
  message.cells.map some <:+: file

theorem Message.Written.append {message : Message} {file : List (Option Cell)}
    (written : message.Written file) (more : List (Option Cell)) : message.Written (file ++ more) :=
  written.trans ⟨[], more, rfl⟩

theorem Message.Written.behind {message : Message} {more : List (Option Cell)}
    (written : message.Written more) (file : List (Option Cell)) : message.Written (file ++ more) :=
  written.trans ⟨file, [], List.append_nil _⟩

theorem Log.writeToFile_opened {log : Log} (opened : log.opened = true) (size : Nat) :
    (log.writeToFile size).file = log.file ++ log.buffer.content size ∧
      (log.writeToFile size).buffer = log.buffer := by
  unfold Log.writeToFile
  rw [if_pos opened]
  exact ⟨rfl, rfl⟩

/-- A round of a flush leaves the list and the flag of the file alone and at most
adds to the file. -/
theorem Log.Flushes.frame {log after : Log} {flush : Flush} {following : Option Flush}
    (flushes : Log.Flushes log flush after following) :
    after.logList = log.logList ∧ after.opened = log.opened ∧
      Exists fun more => after.file = log.file ++ more := by
  have written : forall size, (log.writeToFile size).logList = log.logList ∧
      (log.writeToFile size).opened = log.opened ∧
      Exists fun more => (log.writeToFile size).file = log.file ++ more := by
    intro size
    unfold Log.writeToFile
    by_cases opened : log.opened = true
    · rw [if_pos opened]
      exact ⟨rfl, rfl, _, rfl⟩
    · rw [if_neg opened]
      exact ⟨rfl, rfl, [], (List.append_nil _).symm⟩
  cases flushes with
  | skip => exact ⟨rfl, rfl, [], (List.append_nil _).symm⟩
  | full => exact written _
  | pack => exact ⟨rfl, rfl, [], (List.append_nil _).symm⟩
  | @done pos =>
      by_cases pending : 0 < pos
      · rw [if_pos pending]
        exact written pos
      · rw [if_neg pending]
        exact ⟨rfl, rfl, [], (List.append_nil _).symm⟩

/-! ## Streams -/

/-- A list with its file and the flush that takes from the one to the other. -/
structure Stream where
  opened : Bool
  list : List Message
  file : List (Option Cell)
  accepted : List Message
  flush : Option Flush

namespace Stream

/-- A message on its way: packed into the buffer, or waiting in the flush. -/
def Moving (buffer : LogBuffer) (flush : Flush) (message : Message) : Prop :=
  message.Written (buffer.content flush.pos) ∨ message ∈ flush.rest

/-- The message has left the list and is not lost. -/
def Leaves (stream : Stream) (buffer : LogBuffer) (message : Message) : Prop :=
  message.Written stream.file ∨
    Exists fun flush => stream.flush = some flush ∧ Moving buffer flush message

/-- Every accepted message is in the list or has left it and is not lost. -/
def Kept (stream : Stream) (buffer : LogBuffer) : Prop :=
  forall message, message ∈ stream.accepted -> message.fits = true ->
    message ∈ stream.list ∨ stream.Leaves buffer message

/-- What a step can do to a stream and to the buffer: nothing to it, while the
buffer changes only if the stream has no flush; accept a message; have a flush
of a caller write to the file; take the list; and a round of the flush. -/
inductive Moves (stream : Stream) (buffer : LogBuffer) : Stream -> LogBuffer -> Prop
  | stay {after : LogBuffer} (opened : Bool) :
      (stream.flush = none ∨ after = buffer ∧ opened = stream.opened) ->
      Moves stream buffer { stream with opened := opened } after
  | push (message : Message) :
      Moves stream buffer
        { stream with
          list := stream.list ++ [message]
          accepted := stream.accepted ++ [message] }
        buffer
  | append {after : LogBuffer} (more : List (Option Cell)) :
      stream.flush = none -> Moves stream buffer { stream with file := stream.file ++ more } after
  | swap :
      stream.flush = none ->
      Moves stream buffer { stream with list := [], flush := some ⟨stream.list, 0⟩ } buffer
  | round {log after : Log} {flush : Flush} {following : Option Flush} :
      stream.flush = some flush -> stream.opened = true -> log.opened = true ->
      log.file = stream.file -> log.buffer = buffer -> Log.Flushes log flush after following ->
      Moves stream buffer { stream with file := after.file, flush := following } after.buffer

/-- A round of the flush of an open file loses no message. -/
theorem moving_round {log after : Log} {flush : Flush} {following : Option Flush} {message : Message}
    (opened : log.opened = true) (fits : message.fits = true)
    (flushes : Log.Flushes log flush after following)
    (before : message.Written log.file ∨ Moving log.buffer flush message) :
    message.Written after.file ∨
      Exists fun flush => following = some flush ∧ Moving after.buffer flush message := by
  cases flushes with
  | @skip long rest pos tooLong =>
      rcases before with written | packed | waiting
      · exact .inl written
      · exact .inr ⟨_, rfl, .inl packed⟩
      · rcases List.mem_cons.mp waiting with rfl | later
        · exact absurd (of_decide_eq_true fits) (Nat.not_le_of_lt tooLong)
        · exact .inr ⟨_, rfl, .inr later⟩
  | @full next rest pos short noRoom =>
      have grown := Log.writeToFile_opened opened pos
      rcases before with written | packed | waiting
      · rw [grown.1]
        exact .inl (written.append _)
      · rw [grown.1]
        exact .inl (packed.behind _)
      · exact .inr ⟨_, rfl, .inr waiting⟩
  | @pack next rest pos buffer short inside moved =>
      have content := LogBuffer.memmove_content moved
      rw [next.length_cells] at content
      rcases before with written | packed | waiting
      · exact .inl written
      · refine .inr ⟨_, rfl, .inl ?_⟩
        change message.Written (buffer.content (pos + next.text.length))
        rw [content]
        exact packed.append _
      · rcases List.mem_cons.mp waiting with rfl | later
        · refine .inr ⟨_, rfl, .inl ?_⟩
          change message.Written (buffer.content (pos + message.text.length))
          rw [content]
          exact Message.Written.behind List.infix_rfl _
        · exact .inr ⟨_, rfl, .inr later⟩
  | @done pos =>
      have grown := Log.writeToFile_opened opened pos
      rcases before with written | packed | waiting
      · by_cases pending : 0 < pos
        · rw [if_pos pending, grown.1]
          exact .inl (written.append _)
        · rw [if_neg pending]
          exact .inl written
      · by_cases pending : 0 < pos
        · rw [if_pos pending, grown.1]
          exact .inl (packed.behind _)
        · rw [Nat.eq_zero_of_not_pos pending] at packed
          have empty : message.cells.map some = [] := List.eq_nil_of_infix_nil packed
          rw [if_neg pending, Message.Written, empty]
          exact .inl List.nil_infix
      · exact absurd waiting List.not_mem_nil

/-- No move loses a message that has left the list. -/
theorem Moves.leaves {stream after : Stream} {buffer written : LogBuffer} {message : Message}
    (moves : Moves stream buffer after written) (fits : message.fits = true)
    (left : stream.Leaves buffer message) : after.Leaves written message := by
  cases moves with
  | stay opened quiet =>
      rcases left with inFile | ⟨flush, current, moving⟩
      · exact .inl inFile
      · rcases quiet with none | ⟨rfl, _⟩
        · rw [none] at current
          cases current
        · exact .inr ⟨flush, current, moving⟩
  | push other => exact left
  | append more none =>
      rcases left with inFile | ⟨flush, current, _⟩
      · exact .inl (inFile.append more)
      · rw [none] at current
        cases current
  | swap none =>
      rcases left with inFile | ⟨flush, current, _⟩
      · exact .inl inFile
      · rw [none] at current
        cases current
  | @round log after flush following current opened view file shared flushes =>
      cases shared
      rcases left with inFile | ⟨active, same, moving⟩
      · rw [← file] at inFile
        exact moving_round view fits flushes (.inl inFile)
      · rw [current] at same
        cases same
        exact moving_round view fits flushes (.inr moving)

/-- No move loses an accepted message. -/
theorem Moves.kept {stream after : Stream} {buffer written : LogBuffer}
    (moves : Moves stream buffer after written) (kept : stream.Kept buffer) : after.Kept written := by
  intro message member fits
  have before : message ∈ stream.accepted ->
      message ∈ stream.list ∨ after.Leaves written message := by
    intro old
    rcases kept message old fits with inList | left
    · exact .inl inList
    · exact .inr (moves.leaves fits left)
  cases moves with
  | stay opened quiet => exact before member
  | push other =>
      rcases List.mem_append.mp member with old | new
      · rcases before old with inList | left
        · exact .inl (List.mem_append_left _ inList)
        · exact .inr left
      · exact .inl (List.mem_append_right _ new)
  | append more none => exact before member
  | swap none =>
      rcases before member with inList | left
      · exact .inr (.inr ⟨_, rfl, .inr inList⟩)
      · exact .inr left
  | round current opened view file shared flushes => exact before member

theorem Moves.accepted {stream after : Stream} {buffer written : LogBuffer} {message : Message}
    (moves : Moves stream buffer after written) (member : message ∈ stream.accepted) :
    message ∈ after.accepted := by
  cases moves with
  | push other => exact List.mem_append_left _ member
  | _ => exact member

/-- What stands in the file stays there. -/
theorem Moves.written {stream after : Stream} {buffer written : LogBuffer} {message : Message}
    (moves : Moves stream buffer after written) (inFile : message.Written stream.file) :
    message.Written after.file := by
  cases moves with
  | append more none => exact inFile.append more
  | @round log after flush following current opened view file shared flushes =>
      rcases flushes.frame.2.2 with ⟨more, longer⟩
      rw [← file] at inFile
      change message.Written after.file
      rw [longer]
      exact inFile.append more
  | _ => exact inFile

/-- What a call of `close` promised: the messages were accepted, from the time
they are due they have left the list, and in the end they are in the file. -/
structure Honours (stream : Stream) (buffer : LogBuffer) (promised : List Message)
    (returned due : Bool) : Prop where
  accepted : forall message, message ∈ promised -> message ∈ stream.accepted
  left : due = true -> forall message, message ∈ promised -> message.fits = true ->
    stream.Leaves buffer message
  written : returned = true -> forall message, message ∈ promised -> message.fits = true ->
    message.Written stream.file

/-- A move keeps the promise, and the messages become due when the list is
empty. -/
theorem Moves.honours {stream after : Stream} {buffer written : LogBuffer} {promised : List Message}
    {returned due dueAfter : Bool} (moves : Moves stream buffer after written)
    (kept : stream.Kept buffer) (honours : stream.Honours buffer promised returned due)
    (later : dueAfter = true -> due = true ∨ after.list = []) :
    after.Honours written promised returned dueAfter where
  accepted := fun message member => moves.accepted (honours.accepted message member)
  left := by
    intro isDue message member fits
    rcases later isDue with before | empty
    · exact moves.leaves fits (honours.left before message member fits)
    · have accepted := moves.accepted (honours.accepted message member)
      rcases moves.kept kept message accepted fits with inList | left
      · rw [empty] at inList
        exact absurd inList List.not_mem_nil
      · exact left
  written := fun back message member fits =>
    moves.written (honours.written back message member fits)

/-- Without a flush a message that has left the list is in the file. -/
theorem Leaves.written {stream : Stream} {buffer : LogBuffer} {message : Message}
    (left : stream.Leaves buffer message) (none : stream.flush = none) :
    message.Written stream.file := by
  rcases left with inFile | ⟨flush, current, _⟩
  · exact inFile
  · rw [none] at current
    cases current

/-- A promise about every accepted message: none that fits the buffer is in the
list, or they are not due. -/
theorem Kept.promise {stream : Stream} {buffer : LogBuffer} {returned due : Bool}
    (kept : stream.Kept buffer)
    (drained : due = true ∨ returned = true -> stream.list.any Message.fits = false)
    (idle : returned = true -> stream.flush = none) :
    stream.Honours buffer stream.accepted returned due := by
  have left : stream.list.any Message.fits = false ->
      forall message, message ∈ stream.accepted -> message.fits = true ->
        stream.Leaves buffer message := by
    intro empty message member fits
    rcases kept message member fits with inList | left
    · have waiting := List.any_eq_false.mp empty message inList
      exact absurd fits waiting
    · exact left
  refine ⟨fun message member => member, ?_, ?_⟩
  · intro isDue
    exact left (drained (.inl isDue))
  · intro back message member fits
    exact (left (drained (.inr back)) message member fits).written (idle back)

/-- The flush has ended, and the promise is kept for good. -/
theorem Honours.return {stream : Stream} {buffer : LogBuffer} {promised : List Message}
    {returned dueAfter : Bool} (honours : stream.Honours buffer promised returned true)
    (none : stream.flush = none) : stream.Honours buffer promised true dueAfter where
  accepted := honours.accepted
  left := fun _ => honours.left rfl
  written := fun _ message member fits => (honours.left rfl message member fits).written none

end Stream

end DarkEden
end ServerTech
