import Mathlib.Data.List.Basic

namespace ServerTech
namespace Framing

universe u v

variable {Packet : Type u} {α : Type v}

/-!
# Streams of self-delimiting frames

Packets are laid out one after another, each as its frame.  A frame format is
self-delimiting when a stream determines the packet it starts with.  A parser
of such a stream has only one correct result: if what it took plus what it
kept is what arrived, and no complete frame is left in what it kept, then it
took exactly the packets whose frames arrived completely.
-/

/-- The frames of the packets, one after another. -/
def stream (frame : Packet -> List α) (packets : List Packet) : List α :=
  (packets.map frame).flatten

/-- The packets whose frames lie completely in the first `count` cells. -/
def completed (frame : Packet -> List α) : List Packet -> Nat -> List Packet
  | [], _ => []
  | packet :: packets, count =>
      if (frame packet).length ≤ count then
        packet :: completed frame packets (count - (frame packet).length)
      else []

/-- What has arrived behind the last complete frame. -/
def remainder (frame : Packet -> List α) (packets : List Packet) (arrived : List α) : List α :=
  arrived.drop (stream frame (completed frame packets arrived.length)).length

/-- At most one admissible packet's frame starts a given stream, and frames of
admissible packets are not empty. -/
structure SelfDelimiting (frame : Packet -> List α) (Admissible : Packet -> Prop) : Prop where
  unique : forall {first second : Packet} {cells : List α}, Admissible first -> Admissible second ->
    frame first <+: cells -> frame second <+: cells -> first = second
  nonempty : forall {packet : Packet}, Admissible packet -> 0 < (frame packet).length

@[simp] theorem stream_nil (frame : Packet -> List α) : stream frame [] = [] :=
  rfl

@[simp] theorem stream_cons (frame : Packet -> List α) (packet : Packet) (packets : List Packet) :
    stream frame (packet :: packets) = frame packet ++ stream frame packets :=
  rfl

theorem stream_append (frame : Packet -> List α) (first second : List Packet) :
    stream frame (first ++ second) = stream frame first ++ stream frame second := by
  simp only [stream, List.map_append, List.flatten_append]

/-- The first cells of a stream that are enough for a frame contain it. -/
theorem frame_isPrefix_of_le {frame : Packet -> List α} {packet : Packet} {rest arrived : List α}
    (cut : arrived <+: frame packet ++ rest) (enough : (frame packet).length ≤ arrived.length) :
    frame packet <+: arrived :=
  List.prefix_of_prefix_length_le (List.prefix_append _ _) cut enough

/-- What a parser took is a prefix of what was sent, and what it kept starts
the frames of the packets that follow. -/
theorem exists_following {frame : Packet -> List α} {Admissible : Packet -> Prop}
    (delimiting : SelfDelimiting frame Admissible) {packets parsed : List Packet} {rest : List α}
    (sent : forall packet, packet ∈ packets -> Admissible packet)
    (taken : forall packet, packet ∈ parsed -> Admissible packet)
    (cut : stream frame parsed ++ rest <+: stream frame packets) :
    Exists fun following => packets = parsed ++ following ∧ rest <+: stream frame following := by
  induction parsed generalizing packets with
  | nil => exact ⟨packets, rfl, cut⟩
  | cons packet parsed inductionHypothesis =>
      have admissible := taken packet List.mem_cons_self
      have leading : frame packet <+: stream frame (packet :: parsed) ++ rest := by
        rw [stream_cons, List.append_assoc]
        exact List.prefix_append _ _
      cases packets with
      | nil =>
          have empty := (leading.trans cut).length_le
          have some_ := delimiting.nonempty admissible
          rw [stream_nil, List.length_nil] at empty
          omega
      | cons expected packets =>
          have same : packet = expected := delimiting.unique admissible
            (sent expected List.mem_cons_self) (leading.trans cut)
            (by rw [stream_cons]; exact List.prefix_append _ _)
          subst same
          rw [stream_cons, stream_cons, List.append_assoc] at cut
          rcases inductionHypothesis
            (fun other member => sent other (List.mem_cons_of_mem packet member))
            (fun other member => taken other (List.mem_cons_of_mem packet member))
            ((List.prefix_append_right_inj _).mp cut) with ⟨following, equal, starts⟩
          exact ⟨following, by rw [equal, List.cons_append], starts⟩

/-- Complete frames in front are counted as completed. -/
theorem completed_append (frame : Packet -> List α) (parsed following : List Packet) (rest : List α) :
    completed frame (parsed ++ following) (stream frame parsed ++ rest).length =
      parsed ++ completed frame following rest.length := by
  induction parsed with
  | nil => rfl
  | cons packet parsed inductionHypothesis =>
      have count : (frame packet ++ (stream frame parsed ++ rest)).length -
          (frame packet).length = (stream frame parsed ++ rest).length := by
        rw [List.length_append, Nat.add_sub_cancel_left]
      rw [stream_cons, List.append_assoc, List.cons_append, completed,
        if_pos (by rw [List.length_append]; exact Nat.le_add_right _ _), count,
        inductionHypothesis, List.cons_append]

/-- The remainder looks only behind the complete frames. -/
theorem remainder_append (frame : Packet -> List α) (parsed following : List Packet)
    (rest : List α) :
    remainder frame (parsed ++ following) (stream frame parsed ++ rest) =
      remainder frame following rest := by
  rw [remainder, remainder, completed_append, stream_append, List.length_append,
    ← List.drop_drop, List.drop_left]

/-- What arrived is the complete frames and a part of the next one. -/
theorem exists_split (frame : Packet -> List α) {packets : List Packet} {arrived : List α}
    (cut : arrived <+: stream frame packets) :
    Exists fun following => packets = completed frame packets arrived.length ++ following ∧
      arrived = stream frame (completed frame packets arrived.length) ++
        remainder frame packets arrived ∧
      remainder frame packets arrived <+: stream frame following ∧
      forall packet later, following = packet :: later ->
        (remainder frame packets arrived).length < (frame packet).length := by
  induction packets generalizing arrived with
  | nil =>
      have empty : arrived = [] := List.prefix_nil.mp cut
      subst empty
      exact ⟨[], rfl, rfl, List.prefix_rfl, fun _ _ impossible => nomatch impossible⟩
  | cons packet packets inductionHypothesis =>
      by_cases enough : (frame packet).length ≤ arrived.length
      · rcases frame_isPrefix_of_le cut enough with ⟨rest, rfl⟩
        rw [stream_cons] at cut
        rcases inductionHypothesis ((List.prefix_append_right_inj _).mp cut) with
          ⟨following, equal, layout, starts, short⟩
        have one : stream frame [packet] = frame packet := by
          rw [stream_cons, stream_nil, List.append_nil]
        have count := completed_append frame [packet] packets rest
        have left := remainder_append frame [packet] packets rest
        rw [one, List.singleton_append] at count left
        rw [count, left]
        refine ⟨following, ?_, ?_, starts, short⟩
        · rw [List.singleton_append, List.cons_append, ← equal]
        · rw [List.singleton_append, stream_cons, List.append_assoc, ← layout]
      · have none_ : completed frame (packet :: packets) arrived.length = [] := by
          rw [completed, if_neg enough]
        rw [remainder, none_]
        refine ⟨packet :: packets, rfl, rfl, cut, ?_⟩
        intro first later same
        cases same
        exact Nat.not_le.mp enough

/-- The only way to split what arrived into frames and an incomplete rest. -/
theorem parsed_eq_completed {frame : Packet -> List α} {Admissible : Packet -> Prop}
    (delimiting : SelfDelimiting frame Admissible) {packets parsed : List Packet} {rest : List α}
    (sent : forall packet, packet ∈ packets -> Admissible packet)
    (taken : forall packet, packet ∈ parsed -> Admissible packet)
    (cut : stream frame parsed ++ rest <+: stream frame packets)
    (incomplete : forall packet, Admissible packet -> ¬ frame packet <+: rest) :
    parsed = completed frame packets (stream frame parsed ++ rest).length := by
  rcases exists_following delimiting sent taken cut with ⟨following, rfl, starts⟩
  rw [completed_append]
  cases following with
  | nil => rw [completed, List.append_nil]
  | cons packet following =>
      rw [stream_cons] at starts
      have admissible := sent packet (List.mem_append.mpr (Or.inr List.mem_cons_self))
      have short : ¬ (frame packet).length ≤ rest.length := fun enough =>
        incomplete packet admissible (frame_isPrefix_of_le starts enough)
      rw [completed, if_neg short, List.append_nil]

end Framing
end ServerTech
