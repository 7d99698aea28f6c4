import ServerTech.BipBuffer.Model

namespace ServerTech
namespace BipBuffer

/-!
# The representation invariant of the bip buffer

Every operation of the class is one of three pure updates once the
representation invariant `Valid` holds: asking for space may open region B,
writing pushes bytes behind the last region, and reading or removing drops
bytes from the front.  This module states the invariant, defines the updates,
proves that the methods of the source compute them without a stray access,
and proves what each update does to the invariant and to the stored bytes.
-/

/-- Region A lies in the block.  An empty region A sits at the start of the
block and excludes region B.  Region B sits at the start of the block, ends
before region A, and was opened because the gap below region A was bigger
than the gap behind it. -/
structure Valid (b : BipBuffer) : Prop where
  allocated : b.allocated = true
  capacity : b.bufferEnd = b.memory.length
  fitsA : b.regionAPtr + b.regionASize ≤ b.bufferEnd
  emptyA : b.regionASize = 0 -> b.regionAPtr = 0 ∧ b.regionBPtr = none
  noB : b.regionBPtr = none -> b.regionBSize = 0
  someB : forall ptr, b.regionBPtr = some ptr -> ptr = 0 ∧
    b.regionBSize ≤ b.regionAPtr ∧ b.bufferEnd < 2 * b.regionAPtr + b.regionASize

def bytesA (b : BipBuffer) : List UInt8 :=
  Block.slice b.memory b.regionAPtr b.regionASize

def bytesB (b : BipBuffer) : List UInt8 :=
  Block.slice b.memory (b.regionBPtr.getD 0) b.regionBSize

/-- The stored bytes, oldest first. -/
def content (b : BipBuffer) : List UInt8 :=
  b.bytesA ++ b.bytesB

/-- The number of bytes the next write can take. -/
def space (b : BipBuffer) : Nat :=
  b.getSpace.1

/-- The buffer after a space query. -/
def opened (b : BipBuffer) : BipBuffer :=
  b.getSpace.2

/-- Append `data` behind the last region. -/
def push (b : BipBuffer) (data : List UInt8) : BipBuffer :=
  { b with memory := Block.overwrite b.memory b.getBuffer data }.incrementWritten data.length

/-- Drop `n` bytes from the front.  When region A is used up, what is left of
region B becomes region A at the start of the block. -/
def dropFront (b : BipBuffer) (n : Nat) : BipBuffer :=
  if n < b.regionASize then
    { b with regionAPtr := b.regionAPtr + n, regionASize := b.regionASize - n }
  else
    { b with
      memory := Block.overwrite b.memory 0
        (Block.slice b.memory (n - b.regionASize) (b.regionASize + b.regionBSize - n))
      regionAPtr := 0
      regionASize := b.regionASize + b.regionBSize - n
      regionBPtr := none
      regionBSize := 0 }

theorem dropFront_bufferEnd (b : BipBuffer) (n : Nat) :
    (b.dropFront n).bufferEnd = b.bufferEnd := by
  rw [dropFront]
  split <;> rfl

theorem allocate_valid (block : List UInt8) : (new.allocate block).Valid where
  allocated := rfl
  capacity := rfl
  fitsA := Nat.zero_le _
  emptyA := fun _ => ⟨rfl, rfl⟩
  noB := fun _ => rfl
  someB := by
    intro ptr open_
    cases open_

theorem allocate_content (block : List UInt8) : (new.allocate block).content = [] := by
  simp only [content, bytesA, bytesB, allocate, new, Block.slice_zero, List.append_nil]

namespace Valid

variable {b : BipBuffer}

/-- Both regions are inside the block, wherever region B is. -/
theorem fitsB (valid : b.Valid) : b.regionBPtr.getD 0 + b.regionBSize ≤ b.bufferEnd := by
  have fits := valid.fitsA
  cases shape : b.regionBPtr with
  | none =>
      have empty := valid.noB shape
      simp only [Option.getD_none]
      omega
  | some ptr =>
      have bounds := valid.someB ptr shape
      simp only [Option.getD_some]
      omega

/-- The two regions share no byte of the block. -/
theorem regions_apart (valid : b.Valid) :
    b.regionBSize = 0 ∨ b.regionBPtr.getD 0 + b.regionBSize ≤ b.regionAPtr := by
  cases shape : b.regionBPtr with
  | none => exact Or.inl (valid.noB shape)
  | some ptr =>
      have bounds := valid.someB ptr shape
      simp only [Option.getD_some]
      omega

theorem bufferStart_bytesB (valid : b.Valid) :
    b.bytesB = Block.slice b.memory 0 b.regionBSize := by
  cases shape : b.regionBPtr with
  | none => simp only [bytesB, shape, Option.getD_none]
  | some ptr =>
      have start := (valid.someB ptr shape).1
      simp only [bytesB, shape, Option.getD_some, start]

theorem length_bytesA (valid : b.Valid) : b.bytesA.length = b.regionASize :=
  Block.length_slice b.memory (valid.capacity ▸ valid.fitsA)

theorem length_bytesB (valid : b.Valid) : b.bytesB.length = b.regionBSize :=
  Block.length_slice b.memory (valid.capacity ▸ valid.fitsB)

theorem length_content (valid : b.Valid) :
    b.content.length = b.regionASize + b.regionBSize := by
  rw [content, List.length_append, valid.length_bytesA, valid.length_bytesB]

theorem getSize_eq (valid : b.Valid) : b.getSize = b.content.length := by
  rw [getSize, if_pos valid.allocated, valid.length_content]

/-- The bytes that can be pushed out in one operation are those of region A:
an empty region A excludes region B. -/
theorem getContiguiousBytes_eq (valid : b.Valid) : b.getContiguiousBytes = b.regionASize := by
  rw [getContiguiousBytes, if_pos valid.allocated]
  by_cases empty : b.regionASize = 0
  · rw [if_neg (not_not_intro empty), valid.noB (valid.emptyA empty).2, empty]
  · rw [if_pos empty]

end Valid

/-! ## Space queries -/

/-- The room behind the region that the next write grows. -/
def free (b : BipBuffer) : Nat :=
  match b.regionBPtr with
  | some _ => b.getBFreeSpace
  | none => b.getAFreeSpace

/-- A space query changes at most the pointer of region B, and only from null
to the start of the block. -/
theorem opened_cases (b : BipBuffer) :
    (b.opened = b ∧ (b.regionBPtr = none -> b.getSpaceBeforeA ≤ b.getAFreeSpace)) ∨
    (b.opened = b.allocateB ∧ b.regionBPtr = none ∧ b.getAFreeSpace < b.getSpaceBeforeA) := by
  unfold opened getSpace
  cases shape : b.regionBPtr with
  | some ptr => exact Or.inl ⟨rfl, fun impossible => nomatch impossible⟩
  | none =>
      by_cases bigger : b.getAFreeSpace < b.getSpaceBeforeA
      · simp only [if_pos bigger]
        exact Or.inr ⟨trivial, trivial, bigger⟩
      · simp only [if_neg bigger]
        exact Or.inl ⟨trivial, fun _ => Nat.le_of_not_lt bigger⟩

theorem space_eq_free (b : BipBuffer) : b.space = b.opened.free := by
  unfold space opened getSpace free
  cases shape : b.regionBPtr with
  | some ptr => simp only [shape]
  | none =>
      by_cases bigger : b.getAFreeSpace < b.getSpaceBeforeA
      · simp only [if_pos bigger, allocateB]
      · simp only [if_neg bigger, shape]

/-- A space query leaves everything but the pointer of region B alone. -/
theorem opened_fields (b : BipBuffer) :
    b.opened.memory = b.memory ∧ b.opened.allocated = b.allocated ∧
      b.opened.bufferEnd = b.bufferEnd ∧ b.opened.regionAPtr = b.regionAPtr ∧
      b.opened.regionASize = b.regionASize ∧ b.opened.regionBSize = b.regionBSize := by
  rcases opened_cases b with ⟨same, _⟩ | ⟨same, _, _⟩ <;> rw [same]
  · exact ⟨rfl, rfl, rfl, rfl, rfl, rfl⟩
  · exact ⟨rfl, rfl, rfl, rfl, rfl, rfl⟩

theorem Valid.opened {b : BipBuffer} (valid : b.Valid) : b.opened.Valid := by
  rcases opened_cases b with ⟨same, _⟩ | ⟨same, null, bigger⟩ <;> rw [same]
  · exact valid
  · have empty := valid.noB null
    have fits := valid.fitsA
    simp only [getAFreeSpace, getSpaceBeforeA] at bigger
    exact {
      allocated := valid.allocated
      capacity := valid.capacity
      fitsA := fits
      emptyA := by
        intro none_left
        change b.regionASize = 0 at none_left
        have start := (valid.emptyA none_left).1
        omega
      noB := fun impossible => nomatch impossible
      someB := by
        intro ptr start
        cases start
        change 0 = 0 ∧ b.regionBSize ≤ b.regionAPtr ∧
          b.bufferEnd < 2 * b.regionAPtr + b.regionASize
        omega }

theorem opened_content (b : BipBuffer) : b.opened.content = b.content := by
  rcases opened_cases b with ⟨same, _⟩ | ⟨same, null, _⟩ <;> rw [same]
  simp only [content, bytesA, bytesB, allocateB, null, Option.getD_some, Option.getD_none]

/-! ## Writing -/

theorem push_none {b : BipBuffer} (null : b.regionBPtr = none) (data : List UInt8) :
    b.push data = { b with
      memory := Block.overwrite b.memory (b.regionAPtr + b.regionASize) data
      regionASize := b.regionASize + data.length } := by
  simp only [push, incrementWritten, getBuffer, null]

theorem push_some {b : BipBuffer} {ptr : Nat} (some_ : b.regionBPtr = some ptr)
    (data : List UInt8) :
    b.push data = { b with
      memory := Block.overwrite b.memory (ptr + b.regionBSize) data
      regionBSize := b.regionBSize + data.length } := by
  simp only [push, incrementWritten, getBuffer, some_]

theorem push_bufferEnd (b : BipBuffer) (data : List UInt8) :
    (b.push data).bufferEnd = b.bufferEnd := by
  cases shape : b.regionBPtr with
  | none => rw [push_none shape]
  | some ptr => rw [push_some shape]

/-- The free room is inside the block and outside region A. -/
theorem Valid.free_fits {b : BipBuffer} (valid : b.Valid) {count : Nat} (fits : count ≤ b.free) :
    b.getBuffer + count ≤ b.memory.length := by
  have inA := valid.fitsA
  rw [← valid.capacity]
  unfold free at fits
  unfold getBuffer
  cases shape : b.regionBPtr with
  | none =>
      simp only [shape, getAFreeSpace] at fits ⊢
      omega
  | some ptr =>
      have bounds := valid.someB ptr shape
      simp only [shape, getBFreeSpace] at fits ⊢
      omega

theorem Valid.push {b : BipBuffer} (valid : b.Valid) {data : List UInt8}
    (fits : data.length ≤ b.free) : (b.push data).Valid := by
  have inA := valid.fitsA
  have inside := valid.free_fits fits
  unfold free at fits
  unfold getBuffer at inside
  cases shape : b.regionBPtr with
  | none =>
      simp only [shape, getAFreeSpace] at fits inside
      rw [push_none shape]
      exact {
        allocated := valid.allocated
        capacity := valid.capacity.trans (Block.length_overwrite b.memory inside).symm
        fitsA := by
          change b.regionAPtr + (b.regionASize + data.length) ≤ b.bufferEnd
          omega
        emptyA := by
          intro empty
          change b.regionASize + data.length = 0 at empty
          exact valid.emptyA (by omega)
        noB := valid.noB
        someB := by
          intro ptr impossible
          exact absurd (shape.symm.trans impossible) (by simp only [reduceCtorEq, not_false_eq_true]) }
  | some ptr =>
      have bounds := valid.someB ptr shape
      simp only [shape, getBFreeSpace] at fits inside
      rw [push_some shape]
      exact {
        allocated := valid.allocated
        capacity := valid.capacity.trans (Block.length_overwrite b.memory inside).symm
        fitsA := inA
        emptyA := valid.emptyA
        noB := by
          intro impossible
          exact absurd (shape.symm.trans impossible) (by simp only [reduceCtorEq, not_false_eq_true])
        someB := by
          intro other same
          have equal := Option.some.inj (shape.symm.trans same)
          change other = 0 ∧ b.regionBSize + data.length ≤ b.regionAPtr ∧
            b.bufferEnd < 2 * b.regionAPtr + b.regionASize
          omega }

theorem Valid.push_content {b : BipBuffer} (valid : b.Valid) {data : List UInt8}
    (fits : data.length ≤ b.free) : (b.push data).content = b.content ++ data := by
  have inside := valid.free_fits fits
  unfold free at fits
  unfold getBuffer at inside
  cases shape : b.regionBPtr with
  | none =>
      simp only [shape] at inside
      rw [push_none shape]
      simp only [content, bytesA, bytesB, valid.noB shape, Block.slice_zero, List.append_nil]
      exact Block.slice_overwrite_extend _ inside
  | some ptr =>
      have bounds := valid.someB ptr shape
      simp only [shape, getBFreeSpace] at fits inside
      rw [push_some shape]
      simp only [content, bytesA, bytesB, shape, Option.getD_some]
      rw [Block.slice_overwrite_extend _ inside, Block.slice_overwrite_after _ (by omega) (by omega),
        List.append_assoc]

/-- Appending data keeps the start of region A and what it holds. -/
theorem Valid.push_regionA {b : BipBuffer} (valid : b.Valid) {data : List UInt8}
    (fits : data.length ≤ b.free) {count : Nat} (inside : count ≤ b.regionASize) :
    (b.push data).regionAPtr = b.regionAPtr ∧ b.regionASize ≤ (b.push data).regionASize ∧
      Block.slice (b.push data).memory b.regionAPtr count =
        Block.slice b.memory b.regionAPtr count := by
  have room := valid.free_fits fits
  have inA := valid.fitsA
  rw [valid.capacity] at inA
  cases shape : b.regionBPtr with
  | none =>
      rw [push_none shape]
      refine ⟨rfl, Nat.le_add_right _ _, ?_⟩
      exact Block.slice_overwrite_before _ inA (by omega)
  | some ptr =>
      have bounds := valid.someB ptr shape
      rw [push_some shape]
      refine ⟨rfl, Nat.le_refl _, ?_⟩
      simp only [getBuffer, shape] at room
      simp only [free, getBFreeSpace, shape] at fits
      exact Block.slice_overwrite_after _ (by omega) (by omega)

/-- The memory copy of a write to the current last region. -/
theorem Valid.store_eq {b : BipBuffer} (valid : b.Valid) {data : List UInt8}
    (fits : data.length ≤ b.free) :
    Block.store b.memory b.getBuffer data =
      some (Block.overwrite b.memory b.getBuffer data) :=
  Block.store_eq_some b.memory (valid.free_fits fits)

theorem Valid.writeB_eq {b : BipBuffer} (valid : b.Valid) {ptr : Nat}
    (some_ : b.regionBPtr = some ptr) (data : List UInt8) :
    b.writeB ptr data = some (if data.length ≤ b.free then (true, b.push data) else (false, b)) := by
  have store := fun fits : data.length ≤ b.free => valid.store_eq fits
  rw [push_some some_]
  simp only [free, getBuffer, some_] at store ⊢
  unfold writeB
  by_cases room : data.length ≤ b.getBFreeSpace
  · rw [if_neg (Nat.not_lt.mpr room), if_pos room, store room, Option.map_some, some_]
  · rw [if_pos (Nat.not_le.mp room), if_neg room]

theorem Valid.writeA_eq {b : BipBuffer} (valid : b.Valid) (null : b.regionBPtr = none)
    (data : List UInt8) :
    b.writeA data = some (if data.length ≤ b.free then (true, b.push data) else (false, b)) := by
  have store := fun fits : data.length ≤ b.free => valid.store_eq fits
  rw [push_none null]
  simp only [free, getBuffer, null] at store ⊢
  unfold writeA
  by_cases room : data.length ≤ b.getAFreeSpace
  · rw [if_neg (Nat.not_lt.mpr room), if_pos room, store room, Option.map_some, null]
  · rw [if_pos (Nat.not_le.mp room), if_neg room]

/-- `Write` succeeds exactly when the data fits, and its memory copy stays in
the block.  A failed `Write` may have opened region B. -/
theorem Valid.write_eq {b : BipBuffer} (valid : b.Valid) (data : List UInt8) :
    b.write data = some (if data.length ≤ b.space then (true, b.opened.push data)
      else (false, b.opened)) := by
  rw [write, if_pos valid.allocated, space_eq_free]
  cases shape : b.regionBPtr with
  | some ptr =>
      have same : b.opened = b := by simp only [BipBuffer.opened, getSpace, shape]
      rw [same]
      exact valid.writeB_eq shape data
  | none =>
      have validOpened := valid.opened
      by_cases bigger : b.getAFreeSpace < b.getSpaceBeforeA
      · have same : b.opened = b.allocateB := by
          simp only [BipBuffer.opened, getSpace, shape, if_pos bigger]
        rw [same] at validOpened ⊢
        simp only [if_pos bigger]
        exact validOpened.writeB_eq rfl data
      · have same : b.opened = b := by
          simp only [BipBuffer.opened, getSpace, shape, if_neg bigger]
        rw [same]
        simp only [if_neg bigger]
        exact valid.writeA_eq shape data

/-- A commit of at most the promised space stays in the block too. -/
theorem Valid.commit_eq {b : BipBuffer} (valid : b.Valid) {data : List UInt8}
    (room : data.length ≤ b.space) : b.commit data = some (b.opened.push data) := by
  have store := valid.opened.store_eq (space_eq_free b ▸ room)
  unfold commit
  change (Block.store b.opened.memory b.opened.getBuffer data).map _ = _
  rw [store]
  rfl

/-! ## Reading and removing -/

/-- The buffer in the middle of `Read` and `Remove`, after `n` bytes that
include the whole of region A have been cut and before region B is moved. -/
def drained (b : BipBuffer) (n : Nat) : BipBuffer :=
  { b with
    regionAPtr := b.regionAPtr + b.regionASize
    regionASize := 0
    regionBPtr := b.regionBPtr.map fun ptr => ptr + (n - b.regionASize)
    regionBSize := b.regionBSize - (n - b.regionASize) }

/-- Region A is used up: what is left of region B moves to the start. -/
theorem Valid.settle_drained {b : BipBuffer} (valid : b.Valid) {n : Nat}
    (past : b.regionASize ≤ n) (within : n ≤ b.regionASize + b.regionBSize)
    {reset : BipBuffer -> BipBuffer}
    (clears : forall d, d.regionASize = 0 -> reset d = d.resetRemove) :
    (b.drained n).settle reset = some (b.dropFront n) := by
  have fits := valid.fitsB
  rw [valid.capacity] at fits
  have cleared : (b.drained n).regionASize = 0 := rfl
  rw [BipBuffer.dropFront, if_neg (Nat.not_lt.mpr past), settle, if_pos cleared]
  by_cases rest : 0 < b.regionBSize - (n - b.regionASize)
  · cases shape : b.regionBPtr with
    | none =>
        have empty := valid.noB shape
        omega
    | some ptr =>
        have start := (valid.someB ptr shape).1
        subst start
        have count : b.regionASize + b.regionBSize - n = b.regionBSize - (n - b.regionASize) := by
          omega
        simp only [shape, Option.getD_some] at fits
        simp only [drained, shape, if_pos rest, Option.map_some, Option.bind_some, Nat.zero_add,
          count]
        by_cases moved : n - b.regionASize ≠ 0
        · have inside : n - b.regionASize + (b.regionBSize - (n - b.regionASize)) ≤
              b.memory.length := by
            omega
          have target : 0 + (Block.slice b.memory (n - b.regionASize)
              (b.regionBSize - (n - b.regionASize))).length ≤ b.memory.length := by
            rw [Block.length_slice _ inside]
            omega
          rw [if_pos moved, Block.move, Block.load_eq_some _ inside, Option.bind_some,
            Block.store_eq_some _ target, Option.map_some]
        · have none_moved : n - b.regionASize = 0 := by omega
          rw [if_neg moved, Option.map_some, none_moved, Block.overwrite_slice _ (by omega)]
  · have count : b.regionASize + b.regionBSize - n = 0 := by omega
    have empty : Block.overwrite b.memory 0 [] = b.memory := by
      simp only [Block.overwrite, List.take_zero, List.nil_append, List.length_nil,
        Nat.zero_add, List.drop_zero]
    rw [if_neg (by exact rest), clears _ rfl, count, Block.slice_zero, empty]
    rfl

theorem Valid.readA_drained {b : BipBuffer} (valid : b.Valid) {n : Nat}
    (past : b.regionASize ≤ n) :
    b.readA n = some (b.bytesA, n - b.regionASize,
      { b with regionAPtr := b.regionAPtr + b.regionASize, regionASize := 0 }) := by
  have fits := valid.fitsA
  rw [valid.capacity] at fits
  unfold readA
  by_cases some_ : 0 < b.regionASize
  · have whole : (if n > b.regionASize then b.regionASize else n) = b.regionASize := by
      split <;> omega
    simp only [if_pos some_, whole, Block.load_eq_some _ fits, Option.map_some, Nat.sub_self]
    rfl
  · have empty : b.regionASize = 0 := by omega
    rw [if_neg some_, bytesA, empty, Block.slice_zero]
    cases b
    simp only at empty
    subst empty
    rfl

theorem Valid.readB_drained {b : BipBuffer} (valid : b.Valid) {n : Nat}
    (past : b.regionASize ≤ n) (within : n ≤ b.regionASize + b.regionBSize) :
    readB { b with regionAPtr := b.regionAPtr + b.regionASize, regionASize := 0 }
        (n - b.regionASize) =
      some (b.bytesB.take (n - b.regionASize), b.drained n) := by
  have fits := valid.fitsB
  rw [valid.capacity] at fits
  unfold readB
  by_cases left : 0 < n - b.regionASize
  · have some_ : 0 < b.regionBSize := by omega
    cases shape : b.regionBPtr with
    | none =>
        have empty := valid.noB shape
        omega
    | some ptr =>
        simp only [shape, Option.getD_some] at fits
        have all : (if n - b.regionASize > b.regionBSize then b.regionBSize
            else n - b.regionASize) = n - b.regionASize := by
          split <;> omega
        have inside : ptr + (n - b.regionASize) ≤ b.memory.length := by omega
        have part : n - b.regionASize ≤ b.regionBSize := by omega
        have bytes := Block.take_slice b.memory ptr part
        rw [if_pos ⟨left, some_⟩, Option.bind_some]
        simp only [all, Block.load_eq_some _ inside, Option.map_some, drained, bytesB, shape, Option.getD_some, bytes]
  · have none_left : n - b.regionASize = 0 := by omega
    rw [if_neg (fun both => left both.1), none_left, List.take_zero]
    cases b
    simp only [drained] at none_left ⊢
    simp only [none_left, Nat.add_zero, Nat.sub_zero, Option.map_id_fun', id_eq]

/-- `Read` either finds too little data and changes nothing, or copies the
oldest bytes out and drops them.  Its memory copies stay in the block. -/
theorem Valid.read_eq {b : BipBuffer} (valid : b.Valid) (n : Nat) :
    b.read n = some (if n ≤ b.content.length then (some (b.content.take n), b.dropFront n)
      else (none, b)) := by
  have lengthA := valid.length_bytesA
  have fits := valid.fitsA
  rw [valid.capacity] at fits
  rw [read, if_pos valid.allocated, valid.length_content]
  by_cases within : n ≤ b.regionASize + b.regionBSize
  · rw [if_neg (Nat.not_lt.mpr within), if_pos within]
    by_cases past : b.regionASize ≤ n
    · have clears : forall d : BipBuffer, d.regionASize = 0 -> d.resetRead = d.resetRemove := by
        intro d empty
        cases d
        simp only at empty
        subst empty
        rfl
      have settled := valid.settle_drained past within clears
      rw [valid.readA_drained past, Option.bind_some]
      simp only [valid.readB_drained past within, Option.bind_some, settled, Option.map_some]
      rw [content, List.take_append, lengthA, List.take_of_length_le (Nat.le_trans (Nat.le_of_eq lengthA) past)]
    · have before : n < b.regionASize := by omega
      have some_ : 0 < b.regionASize := by omega
      have part : (if n > b.regionASize then b.regionASize else n) = n := if_neg (by omega)
      have inside : b.regionAPtr + n ≤ b.memory.length := by omega
      have stays : ¬ b.regionASize - n = 0 := by omega
      rw [readA, if_pos some_]
      simp only [part, Block.load_eq_some _ inside, Option.map_some, Option.bind_some, Nat.sub_self, readB,
        Nat.lt_irrefl, false_and, if_false, settle, if_neg stays, List.append_nil]
      rw [dropFront, if_pos before, content,
        List.take_append_of_le_length (by omega), bytesA, Block.take_slice _ _ (by omega)]
  · rw [if_pos (Nat.not_le.mp within), if_neg within]

/-- `Remove` drops as many bytes as there are. -/
theorem Valid.remove_eq {b : BipBuffer} (valid : b.Valid) (len : Nat) :
    b.remove len = some (b.dropFront (min len b.content.length)) := by
  rw [remove, if_pos valid.allocated, valid.length_content]
  by_cases past : b.regionASize ≤ len
  · have most : b.regionASize ≤ min len (b.regionASize + b.regionBSize) := by omega
    have settled := valid.settle_drained most (Nat.min_le_right _ _)
      (fun (d : BipBuffer) (_ : d.regionASize = 0) => (rfl : d.resetRemove = d.resetRemove))
    have cut : (removeB { b with regionAPtr := b.regionAPtr + b.regionASize, regionASize := 0 }
        (len - b.regionASize)) = b.drained (min len (b.regionASize + b.regionBSize)) := by
      unfold removeB drained
      by_cases both : 0 < len - b.regionASize ∧ 0 < b.regionBSize
      · have count : (if len - b.regionASize > b.regionBSize then b.regionBSize
            else len - b.regionASize) =
            min len (b.regionASize + b.regionBSize) - b.regionASize := by
          split <;> omega
        rw [if_pos both]
        simp only [count]
      · have count : min len (b.regionASize + b.regionBSize) - b.regionASize = 0 := by omega
        rw [if_neg both]
        simp only [count, Nat.sub_zero, Nat.add_zero, Option.map_id_fun', id_eq]
    have whole : b.removeA len = (len - b.regionASize,
        { b with regionAPtr := b.regionAPtr + b.regionASize, regionASize := 0 }) := by
      unfold removeA
      by_cases some_ : 0 < b.regionASize
      · have all : (if len > b.regionASize then b.regionASize else len) = b.regionASize := by
          split <;> omega
        simp only [if_pos some_, all, Nat.sub_self]
      · have empty : b.regionASize = 0 := by omega
        rw [if_neg some_, empty]
        cases b
        simp only at empty
        subst empty
        rfl
    simp only [whole, cut, settled]
  · have before : len < b.regionASize := by omega
    have some_ : 0 < b.regionASize := by omega
    have part : (if len > b.regionASize then b.regionASize else len) = len := if_neg (by omega)
    have stays : ¬ b.regionASize - len = 0 := by omega
    have count : min len (b.regionASize + b.regionBSize) = len := by omega
    rw [removeA, if_pos some_, count, dropFront, if_pos before]
    simp only [part, Nat.sub_self, removeB, Nat.lt_irrefl, false_and, if_false, settle,
      if_neg stays]

theorem Valid.dropFront {b : BipBuffer} (valid : b.Valid) (n : Nat) : (b.dropFront n).Valid := by
  have fits := valid.fitsA
  have apart := valid.regions_apart
  rw [BipBuffer.dropFront]
  by_cases before : n < b.regionASize
  · rw [if_pos before]
    exact {
      allocated := valid.allocated
      capacity := valid.capacity
      fitsA := by
        change b.regionAPtr + n + (b.regionASize - n) ≤ b.bufferEnd
        omega
      emptyA := by
        intro empty
        change b.regionASize - n = 0 at empty
        omega
      noB := valid.noB
      someB := by
        intro ptr some_
        have bounds := valid.someB ptr some_
        change ptr = 0 ∧ b.regionBSize ≤ b.regionAPtr + n ∧
          b.bufferEnd < 2 * (b.regionAPtr + n) + (b.regionASize - n)
        omega }
  · rw [if_neg before]
    have inside : n - b.regionASize + (b.regionASize + b.regionBSize - n) ≤ b.memory.length ∨
        b.regionASize + b.regionBSize - n = 0 := by
      rw [← valid.capacity]
      omega
    have length : (Block.slice b.memory (n - b.regionASize)
        (b.regionASize + b.regionBSize - n)).length = b.regionASize + b.regionBSize - n := by
      rcases inside with inside | empty
      · exact Block.length_slice _ inside
      · rw [empty, Block.slice_zero, List.length_nil]
    exact {
      allocated := valid.allocated
      capacity := by
        change b.bufferEnd = _
        rw [Block.length_overwrite _ (by rw [length, ← valid.capacity]; omega), valid.capacity]
      fitsA := by
        change 0 + (b.regionASize + b.regionBSize - n) ≤ b.bufferEnd
        omega
      emptyA := fun _ => ⟨rfl, rfl⟩
      noB := fun _ => rfl
      someB := fun _ impossible => nomatch impossible }

theorem Valid.dropFront_content {b : BipBuffer} (valid : b.Valid) (n : Nat) :
    (b.dropFront n).content = b.content.drop n := by
  have fits := valid.fitsA
  have apart := valid.regions_apart
  have lengthA := valid.length_bytesA
  rw [BipBuffer.dropFront]
  by_cases before : n < b.regionASize
  · rw [if_pos before]
    change Block.slice b.memory (b.regionAPtr + n) (b.regionASize - n) ++ b.bytesB = _
    rw [content, List.drop_append_of_le_length (by omega), bytesA, Block.drop_slice]
  · rw [if_neg before]
    have count : b.regionBSize - (n - b.regionASize) = b.regionASize + b.regionBSize - n := by
      omega
    have bytes : Block.slice b.memory (n - b.regionASize) (b.regionASize + b.regionBSize - n) =
        b.bytesB.drop (n - b.regionASize) := by
      rw [valid.bufferStart_bytesB, Block.drop_slice, Nat.zero_add, count]
    have length : (b.bytesB.drop (n - b.regionASize)).length =
        b.regionASize + b.regionBSize - n := by
      rw [List.length_drop, valid.length_bytesB, count]
    have cut : b.content.drop n = b.bytesB.drop (n - b.regionASize) := by
      rw [content, List.drop_append, lengthA,
        List.drop_eq_nil_of_le (Nat.le_trans (Nat.le_of_eq lengthA) (Nat.le_of_not_lt before)),
        List.nil_append]
    rw [bytes, cut]
    change Block.slice _ 0 (b.regionASize + b.regionBSize - n) ++ Block.slice _ 0 0 = _
    rw [Block.slice_zero, List.append_nil, ← length]
    exact Block.slice_overwrite _ (by rw [length, ← valid.capacity]; omega)

end BipBuffer
end ServerTech
