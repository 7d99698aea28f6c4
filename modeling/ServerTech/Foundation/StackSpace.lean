import Mathlib.Data.List.Basic

namespace ServerTech

universe u

variable {size : Nat} {Cell : Type u}

/-!
# Space for a stack

Memory of a fixed size for a stack that grows down.  The live part of the stack
is at the end of the space, and what lies below it is of no meaning.
-/

/-- Memory of `size` cells. -/
structure StackSpace (size : Nat) (Cell : Type u) where
  cells : List Cell
  whole : cells.length = size
  deriving DecidableEq

namespace StackSpace

/-- The cells of a stack of this depth. -/
def live (space : StackSpace size Cell) (depth : Nat) : List Cell :=
  space.cells.drop (size - depth)

/-- Write a whole stack into the space. -/
def place (space : StackSpace size Cell) (stack : List Cell) (fits : stack.length ≤ size) :
    StackSpace size Cell where
  cells := space.cells.take (size - stack.length) ++ stack
  whole := by
    rw [List.length_append, List.length_take, space.whole]
    omega

@[simp] theorem length_live (space : StackSpace size Cell) {depth : Nat} (fits : depth ≤ size) :
    (space.live depth).length = depth := by
  rw [live, List.length_drop, space.whole]
  omega

/-- A stack that was written is there. -/
@[simp] theorem live_place (space : StackSpace size Cell) {stack : List Cell}
    (fits : stack.length ≤ size) : (space.place stack fits).live stack.length = stack := by
  have length : (space.cells.take (size - stack.length)).length = size - stack.length := by
    rw [List.length_take, space.whole]
    omega
  rw [live, place, List.drop_append, length, Nat.sub_self, List.drop_zero]
  rw [List.drop_eq_nil_of_le (by omega), List.nil_append]

@[simp] theorem live_zero (space : StackSpace size Cell) : space.live 0 = [] := by
  rw [live, Nat.sub_zero]
  exact List.drop_eq_nil_of_le (Nat.le_of_eq space.whole)

end StackSpace

end ServerTech
