import Mathlib.Data.List.Basic

namespace ServerTech
namespace Block

universe u

variable {α : Type u}

/-!
# Bounded blocks of cells

A block is the memory one allocation returned, and a pointer into it is an
offset from its first cell.  The three accesses below (read a range, write a
range, move a range) return `none` when any cell they touch lies outside the
block.  A program whose runs never return `none` therefore touches only cells
of its block, and no separate record of the touched cells is needed.

`slice` and `overwrite` are the total functions behind the accesses.  The
lemmas say what a write changes and, for a range it does not touch, that it
changes nothing.
-/

/-- The cells of the range of `count` cells that starts at `offset`. -/
def slice (block : List α) (offset count : Nat) : List α :=
  (block.drop offset).take count

/-- The block with `data` written at `offset`. -/
def overwrite (block : List α) (offset : Nat) (data : List α) : List α :=
  block.take offset ++ (data ++ block.drop (offset + data.length))

/-- Read a range.  There is no result when the range leaves the block. -/
def load (block : List α) (offset count : Nat) : Option (List α) :=
  if offset + count ≤ block.length then some (slice block offset count) else none

/-- Write a range.  There is no result when the range leaves the block. -/
def store (block : List α) (offset : Nat) (data : List α) : Option (List α) :=
  if offset + data.length ≤ block.length then some (overwrite block offset data) else none

/-- Copy a range onto another one of the same block.  The source is read
before the target is written, so the two ranges may overlap. -/
def move (block : List α) (target source count : Nat) : Option (List α) :=
  (load block source count).bind (store block target)

theorem load_eq_some (block : List α) {offset count : Nat}
    (inside : offset + count ≤ block.length) :
    load block offset count = some (slice block offset count) :=
  if_pos inside

theorem store_eq_some (block : List α) {offset : Nat} {data : List α}
    (inside : offset + data.length ≤ block.length) :
    store block offset data = some (overwrite block offset data) :=
  if_pos inside

@[simp] theorem slice_zero (block : List α) (offset : Nat) : slice block offset 0 = [] :=
  List.take_zero

theorem length_slice (block : List α) {offset count : Nat}
    (inside : offset + count ≤ block.length) : (slice block offset count).length = count := by
  rw [slice, List.length_take, List.length_drop]
  omega

/-- A range splits at any inner cell. -/
theorem slice_add (block : List α) (offset first second : Nat) :
    slice block offset (first + second) =
      slice block offset first ++ slice block (offset + first) second := by
  simp only [slice]
  rw [List.take_add, List.drop_drop]

theorem take_slice (block : List α) (offset : Nat) {first count : Nat} (within : first ≤ count) :
    (slice block offset count).take first = slice block offset first := by
  rw [slice, List.take_take, Nat.min_eq_left within]
  rfl

theorem drop_slice (block : List α) (offset first count : Nat) :
    (slice block offset count).drop first = slice block (offset + first) (count - first) := by
  rw [slice, List.drop_take, List.drop_drop]
  rfl

/-- A range inside a first part does not see what follows it. -/
theorem slice_append_left (first second : List α) {offset count : Nat}
    (inside : offset + count ≤ first.length) :
    slice (first ++ second) offset count = slice first offset count := by
  rw [slice, List.drop_append_of_le_length (by omega),
    List.take_append_of_le_length (by rw [List.length_drop]; omega)]
  rfl

/-- A range behind a first part does not see it. -/
theorem slice_append_right (first second : List α) (offset count : Nat) :
    slice (first ++ second) (first.length + offset) count = slice second offset count := by
  rw [slice, ← List.drop_drop, List.drop_left]
  rfl

theorem length_overwrite (block : List α) {offset : Nat} {data : List α}
    (inside : offset + data.length ≤ block.length) :
    (overwrite block offset data).length = block.length := by
  simp only [overwrite, List.length_append, List.length_take, List.length_drop]
  omega

/-- Writing back what a range holds changes nothing. -/
theorem overwrite_slice (block : List α) {offset count : Nat}
    (inside : offset + count ≤ block.length) :
    overwrite block offset (slice block offset count) = block := by
  rw [overwrite, length_slice block inside, slice, ← List.drop_drop, List.take_append_drop,
    List.take_append_drop]

/-- Writing over the whole of a second part leaves the first one. -/
theorem overwrite_append (first second : List α) {data : List α}
    (whole : data.length = second.length) :
    overwrite (first ++ second) first.length data = first ++ data := by
  rw [overwrite, List.take_left, whole, ← List.length_append, List.drop_length, List.append_nil]

/-- The range just written holds the data. -/
theorem slice_overwrite (block : List α) {offset : Nat} {data : List α}
    (inside : offset + data.length ≤ block.length) :
    slice (overwrite block offset data) offset data.length = data := by
  have before : (block.take offset).length = offset := by
    rw [List.length_take]
    omega
  rw [slice, overwrite, List.drop_append_of_le_length (Nat.le_of_eq before.symm),
    List.drop_eq_nil_of_le (Nat.le_of_eq before), List.nil_append, List.take_left]

/-- A range that ends before the written one is unchanged. -/
theorem slice_overwrite_before (block : List α) {offset start count : Nat} {data : List α}
    (inside : offset ≤ block.length) (apart : start + count ≤ offset) :
    slice (overwrite block offset data) start count = slice block start count := by
  have before : (block.take offset).length = offset := by
    rw [List.length_take]
    omega
  rw [slice, overwrite, List.drop_append_of_le_length (by omega),
    List.take_append_of_le_length (by rw [List.length_drop]; omega), List.drop_take,
    List.take_take, Nat.min_eq_left (by omega)]
  rfl

/-- Data written behind a range extends it. -/
theorem slice_overwrite_extend (block : List α) {start size : Nat} {data : List α}
    (inside : start + size + data.length ≤ block.length) :
    slice (overwrite block (start + size) data) start (size + data.length) = slice block start size ++ data := by
  rw [slice_add, slice_overwrite_before block (Nat.le_trans (Nat.le_add_right _ _) inside) (Nat.le_refl _),
    slice_overwrite block inside]

/-- Data written behind the front of a block. -/
theorem slice_overwrite_behind {block front data : List α} (held : slice block 0 front.length = front)
    (inside : (front ++ data).length ≤ block.length) :
    slice (overwrite block front.length data) 0 (front ++ data).length = front ++ data := by
  have room : 0 + front.length + data.length ≤ block.length := by
    rw [Nat.zero_add, ← List.length_append]
    exact inside
  have extended := slice_overwrite_extend block room
  rw [Nat.zero_add, held] at extended
  rw [List.length_append]
  exact extended

/-- A range that starts after the written one is unchanged. -/
theorem slice_overwrite_after (block : List α) {offset start count : Nat} {data : List α}
    (inside : offset ≤ block.length) (apart : offset + data.length ≤ start) :
    slice (overwrite block offset data) start count = slice block start count := by
  have before : (block.take offset ++ data).length = offset + data.length := by
    rw [List.length_append, List.length_take]
    omega
  rw [slice, overwrite, ← List.append_assoc, List.drop_append, before,
    List.drop_eq_nil_of_le (Nat.le_trans (Nat.le_of_eq before) apart), List.nil_append,
    List.drop_drop, Nat.add_sub_cancel' apart]
  rfl

end Block
end ServerTech
