import ServerTech.CircularBuffer.Agreement

namespace ServerTech

/-!
# Circular buffers that satisfy their invariant

A `Ring` is a circular buffer together with the representation invariant.  Its
operations are those of the class.  They always return, because on such a
buffer no method makes a stray access, and they return a `Ring` again.  The
sockets hold `Ring` values, so that their models never restate the invariant.

The lemmas give each operation in terms of the pure updates of the bip buffer
and in terms of the stored bytes.
-/

/-- An allocated circular buffer whose regions are laid out correctly. -/
structure Ring where
  buffer : CircularBuffer
  valid : buffer.toBip.Valid

namespace Ring

def bip (r : Ring) : BipBuffer :=
  r.buffer.toBip

theorem bip_valid (r : Ring) : r.bip.Valid :=
  r.valid

/-- The stored bytes, oldest first. -/
def content (r : Ring) : List UInt8 :=
  r.bip.content

def capacity (r : Ring) : Nat :=
  r.buffer.bufferEnd

/-- A freshly allocated buffer. -/
def allocate (block : List UInt8) : Ring :=
  ⟨CircularBuffer.new.allocate block, BipBuffer.allocate_valid block⟩

@[simp] theorem allocate_content (block : List UInt8) : (allocate block).content = [] :=
  BipBuffer.allocate_content block

@[simp] theorem allocate_capacity (block : List UInt8) : (allocate block).capacity = block.length :=
  rfl

/-- Package a call that is known to return a correct buffer. -/
def returned {α : Type} (call : Option (α × CircularBuffer)) (expected : α × BipBuffer)
    (same : call.map (Prod.map id CircularBuffer.toBip) = some expected)
    (valid : expected.2.Valid) : α × Ring :=
  have some_ : call.isSome := by
    rw [← Option.isSome_map (f := Prod.map id CircularBuffer.toBip), same]
    rfl
  ((call.get some_).1, ⟨(call.get some_).2, by
    rcases Option.map_eq_some_iff.mp same with ⟨after, value, equal⟩
    subst value
    rw [← equal] at valid
    exact valid⟩)

theorem returned_eq {α : Type} {call : Option (α × CircularBuffer)} {expected : α × BipBuffer}
    (same : call.map (Prod.map id CircularBuffer.toBip) = some expected)
    (valid : expected.2.Valid) :
    (returned call expected same valid).1 = expected.1 ∧
      (returned call expected same valid).2.bip = expected.2 := by
  rcases Option.map_eq_some_iff.mp same with ⟨after, value, equal⟩
  subst value
  subst equal
  exact ⟨rfl, rfl⟩

/-! ## Queries -/

def getSize (r : Ring) : Nat :=
  r.buffer.getSize

def getContiguiousBytes (r : Ring) : Nat :=
  r.buffer.getContiguiousBytes

def getBufferStart (r : Ring) : Option Nat :=
  r.buffer.getBufferStart

theorem getSize_eq (r : Ring) : r.getSize = r.content.length := by
  rw [getSize, ← CircularBuffer.getSize_toBip _ r.valid.allocated]
  exact r.valid.getSize_eq

/-- The contiguous bytes are those of region A. -/
theorem getContiguiousBytes_eq (r : Ring) : r.getContiguiousBytes = r.bip.regionASize := by
  rw [getContiguiousBytes, ← CircularBuffer.getContiguiousBytes_toBip _ r.valid.allocated]
  exact r.valid.getContiguiousBytes_eq

/-- Nothing is stored when the contiguous part is empty: region B is only open
behind a region A that is not. -/
theorem content_eq_nil (r : Ring) (none_ : r.getContiguiousBytes = 0) : r.content = [] := by
  rw [getContiguiousBytes_eq] at none_
  have noB := r.bip_valid.noB (r.bip_valid.emptyA none_).2
  have length := r.bip_valid.length_content
  rw [none_, noB] at length
  exact List.length_eq_zero_iff.mp length

def getSpace (r : Ring) : Nat × Ring :=
  returned (some r.buffer.getSpace) (r.bip.space, r.bip.opened)
    (by
      rw [BipBuffer.space, BipBuffer.opened, bip, CircularBuffer.getSpace_toBip]
      rfl)
    r.bip_valid.opened

/-- The number of bytes the next write or commit can take. -/
def space (r : Ring) : Nat :=
  r.getSpace.1

theorem space_eq (r : Ring) : r.space = r.bip.space :=
  (returned_eq _ r.bip_valid.opened).1

theorem allocate_space (block : List UInt8) : (allocate block).space = block.length := by
  rw [space_eq]
  rfl

/-- The space that was promised is free after the query. -/
theorem opened_free (r : Ring) {count : Nat} (room : count ≤ r.space) :
    count ≤ r.bip.opened.free := by
  rw [← BipBuffer.space_eq_free, ← r.space_eq]
  exact room

/-- No more is promised than the block holds. -/
theorem space_le_capacity (r : Ring) : r.space ≤ r.capacity := by
  have inside := r.bip_valid.opened.free_fits (r.opened_free (Nat.le_refl _))
  rw [(BipBuffer.opened_fields r.bip).1, ← r.bip_valid.capacity] at inside
  exact Nat.le_trans (Nat.le_add_left _ _) inside

/-! ## Updates -/

/-- The commit of received bytes: it needs the space it was promised. -/
def commit (r : Ring) (data : List UInt8) (room : data.length ≤ r.space) : Ring :=
  (returned ((r.buffer.commit data).map fun after => ((), after)) ((), r.bip.opened.push data)
    (by
      have agree := CircularBuffer.commit_toBip r.buffer data
      have done : r.bip.commit data = some (r.bip.opened.push data) :=
        r.bip_valid.commit_eq (r.space_eq ▸ room)
      rw [Option.map_map]
      change (r.buffer.commit data).map (Prod.mk () ∘ CircularBuffer.toBip) = _
      rw [← Option.map_map, ← agree]
      exact congrArg (Option.map (Prod.mk ())) done)
    (r.bip_valid.opened.push (r.opened_free room))).2

theorem commit_bip (r : Ring) {data : List UInt8} (room : data.length ≤ r.space) :
    (r.commit data room).bip = r.bip.opened.push data :=
  (returned_eq _ (r.bip_valid.opened.push (r.opened_free room))).2

/-- A commit appends the received bytes. -/
theorem commit_content (r : Ring) {data : List UInt8} (room : data.length ≤ r.space) :
    (r.commit data room).content = r.content ++ data := by
  rw [content, commit_bip, r.bip_valid.opened.push_content (r.opened_free room),
    BipBuffer.opened_content, content]

theorem commit_capacity (r : Ring) {data : List UInt8} (room : data.length ≤ r.space) :
    (r.commit data room).capacity = r.capacity := by
  change (r.commit data room).bip.bufferEnd = r.bip.bufferEnd
  rw [commit_bip, BipBuffer.push_bufferEnd, (BipBuffer.opened_fields r.bip).2.2.1]

theorem written_valid (r : Ring) (data : List UInt8) :
    (if data.length ≤ r.bip.space then (true, r.bip.opened.push data)
      else (false, r.bip.opened)).2.Valid := by
  by_cases room : data.length ≤ r.bip.space
  · rw [if_pos room]
    exact r.bip_valid.opened.push (BipBuffer.space_eq_free r.bip ▸ room)
  · rw [if_neg room]
    exact r.bip_valid.opened

def write (r : Ring) (data : List UInt8) : Bool × Ring :=
  returned (r.buffer.write data)
    (if data.length ≤ r.bip.space then (true, r.bip.opened.push data) else (false, r.bip.opened))
    ((CircularBuffer.write_toBip r.buffer data).symm.trans (r.bip_valid.write_eq data))
    (r.written_valid data)

theorem write_of_room (r : Ring) {data : List UInt8} (room : data.length ≤ r.space) :
    (r.write data).1 = true ∧ (r.write data).2.bip = r.bip.opened.push data := by
  have spec := returned_eq ((CircularBuffer.write_toBip r.buffer data).symm.trans
    (r.bip_valid.write_eq data)) (r.written_valid data)
  rw [space_eq] at room
  simp only [if_pos room] at spec
  exact spec

theorem write_of_full (r : Ring) {data : List UInt8} (full : r.space < data.length) :
    (r.write data).1 = false ∧ (r.write data).2.bip = r.bip.opened := by
  have spec := returned_eq ((CircularBuffer.write_toBip r.buffer data).symm.trans
    (r.bip_valid.write_eq data)) (r.written_valid data)
  rw [space_eq] at full
  simp only [if_neg (Nat.not_le.mpr full)] at spec
  exact spec

/-- A write that succeeds appends its bytes. -/
theorem write_content_of_room (r : Ring) {data : List UInt8} (room : data.length ≤ r.space) :
    (r.write data).2.content = r.content ++ data := by
  rw [content, (r.write_of_room room).2, r.bip_valid.opened.push_content (r.opened_free room),
    BipBuffer.opened_content, content]

/-- A write that fails leaves every byte as it is. -/
theorem write_content_of_full (r : Ring) {data : List UInt8} (full : r.space < data.length) :
    (r.write data).2.content = r.content := by
  rw [content, (r.write_of_full full).2, BipBuffer.opened_content, content]

theorem write_capacity (r : Ring) (data : List UInt8) : (r.write data).2.capacity = r.capacity := by
  change (r.write data).2.bip.bufferEnd = r.bip.bufferEnd
  by_cases room : data.length ≤ r.space
  · rw [(r.write_of_room room).2, BipBuffer.push_bufferEnd, (BipBuffer.opened_fields r.bip).2.2.1]
  · rw [(r.write_of_full (Nat.not_le.mp room)).2, (BipBuffer.opened_fields r.bip).2.2.1]

theorem read_valid (r : Ring) (bytes : Nat) :
    (if bytes ≤ r.bip.content.length then (some (r.bip.content.take bytes), r.bip.dropFront bytes)
      else (none, r.bip)).2.Valid := by
  split
  · exact r.bip_valid.dropFront bytes
  · exact r.bip_valid

def read (r : Ring) (bytes : Nat) : Option (List UInt8) × Ring :=
  returned (r.buffer.read bytes)
    (if bytes ≤ r.bip.content.length then (some (r.bip.content.take bytes), r.bip.dropFront bytes)
      else (none, r.bip))
    ((CircularBuffer.read_toBip r.buffer bytes).symm.trans (r.bip_valid.read_eq bytes))
    (r.read_valid bytes)

theorem read_of_enough (r : Ring) {bytes : Nat} (enough : bytes ≤ r.content.length) :
    (r.read bytes).1 = some (r.content.take bytes) ∧
      (r.read bytes).2.bip = r.bip.dropFront bytes := by
  have spec := returned_eq ((CircularBuffer.read_toBip r.buffer bytes).symm.trans
    (r.bip_valid.read_eq bytes)) (r.read_valid bytes)
  have within : bytes ≤ r.bip.content.length := enough
  simp only [if_pos within] at spec
  exact spec

/-- A read takes the oldest bytes. -/
theorem read_content (r : Ring) {bytes : Nat} (enough : bytes ≤ r.content.length) :
    (r.read bytes).2.content = r.content.drop bytes := by
  rw [content, (r.read_of_enough enough).2, r.bip_valid.dropFront_content, content]

theorem read_capacity (r : Ring) (bytes : Nat) : (r.read bytes).2.capacity = r.capacity := by
  have spec := (returned_eq ((CircularBuffer.read_toBip r.buffer bytes).symm.trans
    (r.bip_valid.read_eq bytes)) (r.read_valid bytes)).2
  have same : (r.read bytes).2.bip.bufferEnd = r.bip.bufferEnd := by
    rw [read, spec]
    by_cases enough : bytes ≤ r.bip.content.length
    · rw [if_pos enough]
      exact BipBuffer.dropFront_bufferEnd r.bip bytes
    · rw [if_neg enough]
  exact same

def remove (r : Ring) (len : Nat) : Ring :=
  (returned ((r.buffer.remove len).map fun after => ((), after))
    ((), r.bip.dropFront (min len r.bip.content.length))
    (by
      have agree := CircularBuffer.remove_toBip r.buffer r.valid.allocated len
      have done := r.bip_valid.remove_eq len
      rw [Option.map_map]
      change (r.buffer.remove len).map (Prod.mk () ∘ CircularBuffer.toBip) = _
      rw [← Option.map_map, ← agree]
      exact congrArg (Option.map (Prod.mk ())) done)
    (r.bip_valid.dropFront _)).2

theorem remove_bip (r : Ring) (len : Nat) :
    (r.remove len).bip = r.bip.dropFront (min len r.content.length) :=
  (returned_eq _ (r.bip_valid.dropFront _)).2

/-- A removal drops the oldest bytes, as many as there are. -/
theorem remove_content (r : Ring) (len : Nat) : (r.remove len).content = r.content.drop len := by
  rw [content, remove_bip, r.bip_valid.dropFront_content]
  by_cases past : len ≤ r.content.length
  · rw [Nat.min_eq_left past]
    rfl
  · rw [Nat.min_eq_right (by omega)]
    change r.content.drop r.content.length = r.content.drop len
    rw [List.drop_eq_nil_of_le (Nat.le_refl _), List.drop_eq_nil_of_le (by omega)]

end Ring
end ServerTech
