import Mathlib.Data.List.Basic

namespace ServerTech
namespace Reassembly

universe u

variable {α : Type u}

/-!
# Putting a numbered log together again

A sender numbers the entries of a log, and a receiver gets some of them, in any
order and any number of times.  It has taken all entries below the next expected
number, and keeps others in a buffer.  Whatever it has is genuine: it is the
entry of its number.  Moving the entries with the next numbers out of the buffer
continues the part of the log that has been taken.
-/

/-- The log has this entry under this number. -/
def Genuine (log : List α) (number : Nat) (entry : α) : Prop :=
  log[number]? = some entry

theorem Genuine.lt {log : List α} {number : Nat} {entry : α} (genuine : Genuine log number entry) :
    number < log.length :=
  (List.getElem?_eq_some_iff.mp genuine).1

/-- An entry stays genuine when the log grows. -/
theorem Genuine.append {log : List α} {number : Nat} {entry : α} (genuine : Genuine log number entry)
    (more : List α) : Genuine (log ++ more) number entry := by
  rw [Genuine, List.getElem?_append_left genuine.lt]
  exact genuine

/-- The new entries of a log. -/
theorem genuine_append_right (log : List α) {more : List α} {offset : Nat} {entry : α}
    (found : more[offset]? = some entry) : Genuine (log ++ more) (log.length + offset) entry := by
  rw [Genuine, List.getElem?_append_right (Nat.le_add_right _ _), Nat.add_sub_cancel_left]
  exact found

/-- Genuine entries with the next numbers continue what has been taken. -/
theorem take_append_genuine {log entries : List α} {next : Nat}
    (genuine : forall offset entry, entries[offset]? = some entry ->
      Genuine log (next + offset) entry) (taken : next ≤ log.length) :
    log.take (next + entries.length) = log.take next ++ entries := by
  have rest : entries <+: log.drop next := by
    rw [List.prefix_iff_getElem?]
    intro offset inside
    rw [List.getElem?_drop]
    exact genuine offset _ (List.getElem?_eq_getElem inside)
  rcases rest with ⟨later, equal⟩
  have whole : log = log.take next ++ (entries ++ later) := by
    rw [equal, List.take_append_drop]
  have size : (log.take next).length = next := List.length_take_of_le taken
  calc log.take (next + entries.length)
      = (log.take next ++ (entries ++ later)).take (next + entries.length) := by rw [← whole]
    _ = log.take next ++ entries := by
        rw [← List.append_assoc]
        apply List.take_left'
        rw [List.length_append, size]

/-! ## What has arrived -/

/-- A number has arrived when it has been taken or stands in the buffer. -/
def Arrived (next : Nat) (buffer : List Nat) (number : Nat) : Prop :=
  number < next ∨ number ∈ buffer

theorem Arrived.mono {next later number : Nat} {buffer more : List Nat}
    (arrived : Arrived next buffer number) (further : next ≤ later)
    (kept : forall number, number ∈ buffer -> number < later ∨ number ∈ more) :
    Arrived later more number := by
  rcases arrived with taken | buffered
  · exact .inl (Nat.lt_of_lt_of_le taken further)
  · exact kept number buffered

/-- When everything has arrived, what has been taken and an ascending buffer
of genuine entries are the whole log. -/
theorem take_append_buffer {log entries : List α} {next : Nat} {numbers : List Nat}
    (each : List.Forall₂ (Genuine log) numbers entries) (ascending : numbers.Pairwise (· < ·))
    (above : forall number, number ∈ numbers -> next ≤ number) (taken : next ≤ log.length)
    (all : forall number, number < log.length -> Arrived next numbers number) :
    log.take next ++ entries = log := by
  induction each generalizing next with
  | nil =>
      have full : log.length ≤ next := by
        apply Nat.le_of_not_lt
        intro open_
        rcases all next open_ with below | member
        · omega
        · cases member
      rw [List.append_nil, List.take_of_length_le full]
  | @cons number entry numbers entries genuine _ inductionHypothesis =>
      rcases List.pairwise_cons.mp ascending with ⟨least, ordered⟩
      have first : number = next := by
        have low := above number List.mem_cons_self
        rcases all next (Nat.lt_of_le_of_lt low genuine.lt) with below | member
        · omega
        · rcases List.mem_cons.mp member with same | later
          · exact same.symm
          · have more := least next later
            omega
      subst first
      have continued := inductionHypothesis ordered (fun other member => least other member)
        genuine.lt (by
          intro other inside
          rcases all other inside with below | member
          · exact .inl (Nat.lt_succ_of_lt below)
          · rcases List.mem_cons.mp member with rfl | later
            · exact .inl (Nat.lt_succ_self _)
            · exact .inr later)
      have step : log.take (number + 1) = log.take number ++ [entry] := by
        rw [List.take_add_one, genuine]
        rfl
      rw [step, List.append_assoc] at continued
      exact continued

end Reassembly
end ServerTech
