import ServerTech.Foundation.Block
import Mathlib.Data.List.TakeWhile

namespace ServerTech
namespace CString

universe u

variable {α : Type u}

/-!
# Strings that end with a mark

A string of any length is kept in a block of a fixed size, and the first cell that
is the mark ends it.  A reader that starts at the front of the block stays inside
only if the block has a mark.
-/

/-- The block starts with the line and a mark behind it. -/
def Starts (mark : α) (block line : List α) : Prop :=
  Block.slice block 0 (line.length + 1) = line ++ [mark]

theorem Starts.split {mark : α} {block line : List α} (starts : Starts mark block line) :
    block = line ++ mark :: block.drop (line.length + 1) := by
  have whole := List.take_append_drop (line.length + 1) block
  unfold Starts Block.slice at starts
  rw [List.drop_zero] at starts
  rw [starts, List.append_assoc] at whole
  exact whole.symm

theorem Starts.mem {mark : α} {block line : List α} (starts : Starts mark block line) : mark ∈ block := by
  rw [starts.split]
  exact List.mem_append_right _ List.mem_cons_self

theorem Starts.content {mark : α} {block line : List α} (starts : Starts mark block line) :
    Block.slice block 0 line.length = line := by
  rw [← Block.take_slice block 0 (Nat.le_succ line.length), starts, List.take_left]

/-- Cells and a mark written behind the ones in front. -/
theorem starts_overwrite {mark : α} {block line more : List α}
    (held : Block.slice block 0 line.length = line) (inside : (line ++ more).length < block.length) :
    Starts mark (Block.overwrite block line.length (more ++ [mark])) (line ++ more) := by
  have size : (line ++ (more ++ [mark])).length = (line ++ more).length + 1 := by
    rw [← List.append_assoc, List.length_append]
    rfl
  have written := Block.slice_overwrite_behind held (by rw [size]; exact inside)
  rw [size, ← List.append_assoc] at written
  exact written

/-! ## Reading -/

variable [DecidableEq α]

/-- The cells in front of the first mark. -/
def front (mark : α) (cells : List α) : List α :=
  cells.takeWhile fun cell => decide (cell ≠ mark)

/-- Read the string at the front of a block.  There is no result when the reader
leaves the block. -/
def read (mark : α) (block : List α) : Option (List α) :=
  if mark ∈ block then some (front mark block) else none

theorem front_begins (mark : α) (cells : List α) : front mark cells <+: cells :=
  List.takeWhile_prefix _

/-- A string without a mark is read as a whole. -/
theorem front_eq_self {mark : α} {line : List α} (unmarked : mark ∉ line) : front mark line = line := by
  apply List.takeWhile_eq_self_iff.mpr
  intro cell listed
  apply decide_eq_true
  rintro rfl
  exact unmarked listed

/-- What is behind a mark does not matter. -/
theorem front_append_mark (mark : α) (line rest : List α) :
    front mark (line ++ mark :: rest) = front mark line := by
  induction line with
  | nil => exact List.takeWhile_cons_of_neg (by simp)
  | cons cell line inductionHypothesis =>
      unfold front at inductionHypothesis ⊢
      rw [List.cons_append, List.takeWhile_cons, List.takeWhile_cons, inductionHypothesis]

theorem Starts.read {mark : α} {block line : List α} (starts : Starts mark block line) :
    read mark block = some (front mark line) := by
  rw [CString.read, if_pos starts.mem, starts.split, front_append_mark]

/-- A string that is read is shorter than its block. -/
theorem read_length_lt {mark : α} {block line : List α} (returned : read mark block = some line) :
    line.length < block.length := by
  unfold CString.read at returned
  split at returned
  · rename_i marked
    cases returned
    refine Nat.lt_of_le_of_ne (front_begins mark block).length_le ?_
    intro same
    have whole := (front_begins mark block).eq_of_length same
    have passes := List.takeWhile_eq_self_iff.mp whole mark marked
    exact absurd rfl (of_decide_eq_true passes)
  · cases returned

/-- A block without a mark has no end. -/
theorem read_unmarked {mark : α} {block : List α} (unmarked : mark ∉ block) : read mark block = none :=
  if_neg unmarked

end CString
end ServerTech
