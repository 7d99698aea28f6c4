import ServerTech.BipBuffer.Fifo

namespace ServerTech

/-!
# The public methods one call at a time

`Fifo.Op` treats a zero-copy commit as one operation.  Here the client makes
each call on its own: it may ask for the space, look at both pointers, store
bytes behind `GetBuffer` and report them with `IncrementWritten`, with other
calls in between.  The client keeps a promise: it reports and stores at most
what the last `GetSpace` returned, less what it has reported or written since.

The last section is about the bytes that are handed to the kernel.  They stay
where they are until the client itself reads or removes.
-/

/-- The public methods, and the client's store behind the pointer that
`GetBuffer` returns. -/
inductive Method where
  | write (data : List UInt8)
  | read (bytes : Nat)
  | remove (len : Nat)
  | getSpace
  | getSize
  | getContiguiousBytes
  | getBuffer
  | getBufferStart
  | store (data : List UInt8)
  | incrementWritten (len : Nat)
  deriving DecidableEq, Repr

/-- What a call returns.  Pointers are offsets from the start of the buffer,
and `none` is the null pointer. -/
inductive Reply where
  | flag (ok : Bool)
  | bytes (data : Option (List UInt8))
  | size (count : Nat)
  | pointer (offset : Option Nat)
  | done
  deriving DecidableEq, Repr

namespace Method

/-- The client may store and report at most the promised bytes. -/
def Permitted (promised : Nat) : Method -> Prop
  | .store data => data.length ≤ promised
  | .incrementWritten len => len ≤ promised
  | _ => True

instance decidablePermitted (promised : Nat) (method : Method) :
    Decidable (method.Permitted promised) :=
  match method with
  | .store data => inferInstanceAs (Decidable (data.length ≤ promised))
  | .incrementWritten len => inferInstanceAs (Decidable (len ≤ promised))
  | .write _ | .read _ | .remove _ | .getSpace | .getSize | .getContiguiousBytes | .getBuffer
  | .getBufferStart => inferInstanceAs (Decidable True)

/-- What is left of the promise after a call with its reply. -/
def promise (promised : Nat) : Method × Reply -> Nat
  | (.getSpace, .size space) => space
  | (.write data, .flag true) => promised - data.length
  | (.incrementWritten len, _) => promised - len
  | _ => promised

/-- The calls that take no byte out of the buffer. -/
def Keeps : Method -> Prop
  | .read _ | .remove _ => False
  | _ => True

instance decidableKeeps (method : Method) : Decidable method.Keeps :=
  match method with
  | .read _ | .remove _ => inferInstanceAs (Decidable False)
  | .write _ | .getSpace | .getSize | .getContiguiousBytes | .getBuffer | .getBufferStart
  | .store _ | .incrementWritten _ => inferInstanceAs (Decidable True)

end Method

/-- One permitted call on a buffer class whose methods are `invoke`.  A state is
the buffer together with what is left of the promise. -/
def Method.Invokes {Buffer : Type} (invoke : Buffer -> Method -> Option (Reply × Buffer))
    (before : Buffer × Nat) (event : Method × Reply) (after : Buffer × Nat) : Prop :=
  event.1.Permitted before.2 ∧ invoke before.1 event.1 = some (event.2, after.1) ∧
    after.2 = Method.promise before.2 event

theorem Method.Invokes.intro {Buffer : Type} {invoke : Buffer -> Method -> Option (Reply × Buffer)}
    {before after : Buffer} {promised : Nat} {method : Method} {reply : Reply}
    (permitted : method.Permitted promised) (returned : invoke before method = some (reply, after)) :
    Method.Invokes invoke (before, promised) (method, reply)
      (after, Method.promise promised (method, reply)) :=
  ⟨permitted, returned, rfl⟩

namespace BipBuffer

open Transition

/-- One call.  There is no result when the call makes a stray access. -/
def invoke (b : BipBuffer) : Method -> Option (Reply × BipBuffer)
  | .write data => (b.write data).map fun (ok, after) => (.flag ok, after)
  | .read bytes => (b.read bytes).map fun (data, after) => (.bytes data, after)
  | .remove len => (b.remove len).map fun after => (.done, after)
  | .getSpace => some (.size b.getSpace.1, b.getSpace.2)
  | .getSize => some (.size b.getSize, b)
  | .getContiguiousBytes => some (.size b.getContiguiousBytes, b)
  | .getBuffer => some (.pointer (some b.getBuffer), b)
  | .getBufferStart => some (.pointer b.getBufferStart, b)
  | .store data =>
      (Block.store b.memory b.getBuffer data).map fun memory => (.done, { b with memory := memory })
  | .incrementWritten len => some (.done, b.incrementWritten len)

/-! ## The promise is always covered by free room -/

theorem push_free (b : BipBuffer) (data : List UInt8) :
    (b.push data).free = b.free - data.length := by
  unfold free
  cases shape : b.regionBPtr with
  | none =>
      rw [push_none shape]
      simp only [shape, getAFreeSpace]
      omega
  | some ptr =>
      rw [push_some shape]
      simp only [shape, getBFreeSpace]
      omega

/-- Opening region B never loses room. -/
theorem Valid.free_le_opened {b : BipBuffer} (valid : b.Valid) : b.free ≤ b.opened.free := by
  rcases opened_cases b with ⟨same, _⟩ | ⟨same, null, bigger⟩
  · exact Nat.le_of_eq (congrArg free same).symm
  · have empty := valid.noB null
    rw [same]
    simp only [free, null, allocateB, getBFreeSpace, getSpaceBeforeA] at bigger ⊢
    omega

/-- Dropping bytes from the front never loses room. -/
theorem Valid.free_le_dropFront {b : BipBuffer} (valid : b.Valid) (n : Nat) :
    b.free ≤ (b.dropFront n).free := by
  have fits := valid.fitsA
  rw [BipBuffer.dropFront]
  unfold free
  by_cases before : n < b.regionASize
  · rw [if_pos before]
    cases shape : b.regionBPtr with
    | none =>
        simp only [getAFreeSpace]
        omega
    | some ptr =>
        simp only [shape, getBFreeSpace]
        omega
  · rw [if_neg before]
    cases shape : b.regionBPtr with
    | none =>
        have empty := valid.noB shape
        simp only [getAFreeSpace]
        omega
    | some ptr =>
        simp only [shape, getBFreeSpace, getAFreeSpace]
        omega

/-- Reporting bytes is appending what the block holds there already. -/
theorem Valid.incrementWritten_eq {b : BipBuffer} (valid : b.Valid) {len : Nat}
    (fits : len ≤ b.free) :
    b.incrementWritten len = b.push (Block.slice b.memory b.getBuffer len) ∧
      (Block.slice b.memory b.getBuffer len).length = len := by
  have inside := valid.free_fits fits
  have length := Block.length_slice b.memory inside
  refine ⟨?_, length⟩
  rw [BipBuffer.push, length, Block.overwrite_slice b.memory inside]

/-- A store changes the block only, and only where no region is. -/
theorem Valid.stored {b : BipBuffer} (valid : b.Valid) {data : List UInt8}
    (fits : data.length ≤ b.free) :
    Valid { b with memory := Block.overwrite b.memory b.getBuffer data } where
  allocated := valid.allocated
  capacity := valid.capacity.trans (Block.length_overwrite b.memory (valid.free_fits fits)).symm
  fitsA := valid.fitsA
  emptyA := valid.emptyA
  noB := valid.noB
  someB := valid.someB

/-- The later buffer still has the bytes of region A where they were. -/
structure Extends (b after : BipBuffer) : Prop where
  start : after.regionAPtr = b.regionAPtr
  grows : b.regionASize ≤ after.regionASize
  bytes : Block.slice after.memory b.regionAPtr b.regionASize = b.bytesA

theorem Extends.refl (b : BipBuffer) : b.Extends b :=
  ⟨rfl, Nat.le_refl _, rfl⟩

theorem Extends.trans {b middle after : BipBuffer} (first : b.Extends middle)
    (second : middle.Extends after) : b.Extends after where
  start := second.start.trans first.start
  grows := Nat.le_trans first.grows second.grows
  bytes := by
    have part := congrArg (List.take b.regionASize) second.bytes
    rw [bytesA, Block.take_slice _ _ first.grows, Block.take_slice _ _ first.grows,
      first.start] at part
    exact part.trans first.bytes

theorem Extends.opened (b : BipBuffer) : b.Extends b.opened := by
  rcases opened_fields b with ⟨memory, _, _, start, size, _⟩
  refine ⟨start, Nat.le_of_eq size.symm, ?_⟩
  rw [memory, bytesA]

theorem Valid.extends_push {b : BipBuffer} (valid : b.Valid) {data : List UInt8}
    (fits : data.length ≤ b.free) : b.Extends (b.push data) := by
  rcases valid.push_regionA fits (Nat.le_refl b.regionASize) with ⟨start, grows, bytes⟩
  exact ⟨start, grows, bytes⟩

theorem Valid.extends_stored {b : BipBuffer} (valid : b.Valid) {data : List UInt8}
    (fits : data.length ≤ b.free) :
    b.Extends { b with memory := Block.overwrite b.memory b.getBuffer data } := by
  rcases valid.push_regionA fits (Nat.le_refl b.regionASize) with ⟨_, _, bytes⟩
  have memory : (b.push data).memory = Block.overwrite b.memory b.getBuffer data := by
    unfold BipBuffer.push incrementWritten
    split <;> rfl
  rw [memory] at bytes
  exact ⟨rfl, Nat.le_refl _, bytes⟩

/-- The states of a client that has kept its promise so far. -/
structure Covered (state : BipBuffer × Nat) : Prop where
  valid : state.1.Valid
  room : state.2 ≤ state.1.free

/-- No permitted call makes a stray access, the promise stays covered, and a
call that takes nothing out leaves the bytes of region A where they are. -/
theorem Covered.invoke {b : BipBuffer} {promised : Nat} (covered : Covered (b, promised))
    (method : Method) (permitted : method.Permitted promised) :
    Exists fun reply => Exists fun after => b.invoke method = some (reply, after) ∧
      Covered (after, Method.promise promised (method, reply)) ∧
      (method.Keeps -> b.Extends after) := by
  rcases covered with ⟨valid, room⟩
  have opening := Nat.le_trans room valid.free_le_opened
  cases method with
  | write data =>
      simp only [BipBuffer.invoke, valid.write_eq, Option.map_some]
      by_cases fits : data.length ≤ b.space
      · have free := space_eq_free b ▸ fits
        rw [if_pos fits]
        refine ⟨_, _, rfl, ⟨valid.opened.push free, ?_⟩, fun _ =>
          (Extends.opened b).trans (valid.opened.extends_push free)⟩
        rw [push_free]
        exact Nat.sub_le_sub_right opening _
      · rw [if_neg fits]
        exact ⟨_, _, rfl, ⟨valid.opened, opening⟩, fun _ => Extends.opened b⟩
  | read bytes =>
      simp only [BipBuffer.invoke, valid.read_eq, Option.map_some]
      by_cases within : bytes ≤ b.content.length
      · rw [if_pos within]
        exact ⟨_, _, rfl, ⟨valid.dropFront bytes, Nat.le_trans room (valid.free_le_dropFront bytes)⟩,
          False.elim⟩
      · rw [if_neg within]
        exact ⟨_, _, rfl, ⟨valid, room⟩, False.elim⟩
  | remove len =>
      simp only [BipBuffer.invoke, valid.remove_eq, Option.map_some]
      exact ⟨_, _, rfl, ⟨valid.dropFront _, Nat.le_trans room (valid.free_le_dropFront _)⟩,
        False.elim⟩
  | getSpace =>
      exact ⟨_, _, rfl, ⟨valid.opened, Nat.le_of_eq (space_eq_free b)⟩, fun _ => Extends.opened b⟩
  | getSize => exact ⟨_, _, rfl, ⟨valid, room⟩, fun _ => Extends.refl b⟩
  | getContiguiousBytes => exact ⟨_, _, rfl, ⟨valid, room⟩, fun _ => Extends.refl b⟩
  | getBuffer => exact ⟨_, _, rfl, ⟨valid, room⟩, fun _ => Extends.refl b⟩
  | getBufferStart => exact ⟨_, _, rfl, ⟨valid, room⟩, fun _ => Extends.refl b⟩
  | store data =>
      have fits : data.length ≤ b.free := Nat.le_trans permitted room
      simp only [BipBuffer.invoke, valid.store_eq fits, Option.map_some]
      exact ⟨_, _, rfl, ⟨valid.stored fits, room⟩, fun _ => valid.extends_stored fits⟩
  | incrementWritten len =>
      have fits : len ≤ b.free := Nat.le_trans permitted room
      rcases valid.incrementWritten_eq fits with ⟨same, length⟩
      have free := length.symm ▸ fits
      simp only [BipBuffer.invoke, same]
      refine ⟨_, _, rfl, ⟨valid.push free, ?_⟩, fun _ => valid.extends_push free⟩
      rw [push_free, length]
      exact Nat.sub_le_sub_right room _

/-- One permitted call that returned. -/
theorem Covered.invokes {before after : BipBuffer × Nat} {event : Method × Reply}
    (covered : Covered before) (invokes : Method.Invokes BipBuffer.invoke before event after) :
    Covered after ∧ (event.1.Keeps -> before.1.Extends after.1) := by
  rcases invokes with ⟨permitted, returned, left⟩
  rcases covered.invoke event.1 permitted with ⟨reply, next, same, coveredNext, kept⟩
  cases same.symm.trans returned
  refine ⟨?_, kept⟩
  rw [show after = (after.1, Method.promise before.2 event) from Prod.ext rfl left]
  exact coveredNext

theorem allocate_covered (block : List UInt8) : Covered (new.allocate block, 0) :=
  ⟨allocate_valid block, Nat.zero_le _⟩

/-- Every run of permitted calls keeps the promise covered. -/
theorem run_covered {before after : BipBuffer × Nat} {events : List (Method × Reply)}
    (run : Run (Method.Invokes invoke) before events after) (covered : Covered before) :
    Covered after :=
  run.invariant (fun _ _ _ covered invokes => (covered.invokes invokes).1) covered

/-! ## Bytes handed to the kernel -/

/-- Every run of permitted calls that takes nothing out leaves region A where
it is. -/
theorem run_extends {before after : BipBuffer × Nat} {events : List (Method × Reply)}
    (run : Run (Restrict (fun _ event => event.1.Keeps) (Method.Invokes invoke)) before events after)
    (covered : Covered before) : Covered after ∧ before.1.Extends after.1 := by
  induction run with
  | refl => exact ⟨covered, Extends.refl _⟩
  | snoc _ last inductionHypothesis =>
      rcases inductionHypothesis with ⟨coveredMiddle, extended⟩
      rcases last with ⟨keeps, invokes⟩
      rcases coveredMiddle.invokes invokes with ⟨coveredAfter, kept⟩
      exact ⟨coveredAfter, extended.trans (kept keeps)⟩

/-- The span that `GetBufferStart` and `GetContiguiousBytes` describe is
region A.  There is a pointer to it exactly when it is not empty. -/
theorem Valid.getBufferStart_eq {b : BipBuffer} (valid : b.Valid) :
    b.getBufferStart = if 0 < b.regionASize then some b.regionAPtr else none := by
  unfold getBufferStart
  by_cases some_ : 0 < b.regionASize
  · rw [if_pos some_, if_pos some_]
  · rw [if_neg some_, if_neg some_]
    exact (valid.emptyA (by omega)).2

/-- A span once handed out is stable: whatever calls follow, as long as none
of them reads or removes, its bytes stay what they are and stay the first
bytes of the content, and a span that is not empty keeps its pointer. -/
theorem sendSpan_stable (block : List UInt8) {b after : BipBuffer} {promised left : Nat}
    {earlier later : List (Method × Reply)}
    (run : Run (Method.Invokes invoke) (new.allocate block, 0) earlier (b, promised))
    (keeps : Run (Restrict (fun _ event => event.1.Keeps) (Method.Invokes invoke))
      (b, promised) later (after, left)) :
    Block.slice after.memory (b.getBufferStart.getD 0) b.getContiguiousBytes =
        Block.slice b.memory (b.getBufferStart.getD 0) b.getContiguiousBytes ∧
      after.content.take b.getContiguiousBytes =
        Block.slice b.memory (b.getBufferStart.getD 0) b.getContiguiousBytes ∧
      (0 < b.getContiguiousBytes -> after.getBufferStart = b.getBufferStart) := by
  have covered := run_covered run (allocate_covered block)
  rcases run_extends keeps covered with ⟨coveredAfter, start, grows, bytes⟩
  change after.regionAPtr = b.regionAPtr at start
  change b.regionASize ≤ after.regionASize at grows
  rw [covered.valid.getContiguiousBytes_eq, covered.valid.getBufferStart_eq,
    coveredAfter.valid.getBufferStart_eq]
  by_cases some_ : 0 < b.regionASize
  · have someAfter : 0 < after.regionASize := Nat.lt_of_lt_of_le some_ grows
    have first : after.content.take b.regionASize = Block.slice after.memory b.regionAPtr b.regionASize := by
      rw [content, List.take_append_of_le_length
        (Nat.le_trans grows (Nat.le_of_eq coveredAfter.valid.length_bytesA.symm)),
        bytesA, Block.take_slice _ _ grows, start]
    rw [if_pos some_, if_pos someAfter, Option.getD_some, start]
    exact ⟨bytes, first.trans bytes, fun _ => rfl⟩
  · have empty : b.regionASize = 0 := by omega
    rw [empty, Block.slice_zero, Block.slice_zero, List.take_zero]
    exact ⟨rfl, rfl, fun impossible => absurd impossible (Nat.lt_irrefl 0)⟩

/-- The span `[4]` at offset three stays in place while a write opens region B
below it, a commit grows region B, and a further write is refused. -/
theorem sendSpan_stable_four_bytes :
    Exists fun b => Exists fun after =>
      Run (Method.Invokes invoke) (new.allocate [0, 0, 0, 0], 0)
        [(.write [1, 2, 3, 4], .flag true), (.read 3, .bytes (some [1, 2, 3]))] (b, 0) ∧
      Run (Restrict (fun _ event => event.1.Keeps) (Method.Invokes invoke)) (b, 0)
        [(.write [5], .flag true), (.getSpace, .size 2), (.store [6, 7], .done),
          (.incrementWritten 2, .done), (.write [8], .flag false)] (after, 0) ∧
      Block.slice after.memory 3 1 = [4] ∧ after.getBufferStart = some 3 := by
  have run : Run (Method.Invokes invoke) (new.allocate [0, 0, 0, 0], 0)
      [(.write [1, 2, 3, 4], .flag true), (.read 3, .bytes (some [1, 2, 3]))]
      ({ memory := [1, 2, 3, 4], allocated := true, bufferEnd := 4, regionAPtr := 3,
          regionASize := 1, regionBPtr := none, regionBSize := 0 }, 0) :=
    .cons (.intro trivial rfl) (.cons (.intro trivial rfl) (.refl _))
  have keeps : Run (Restrict (fun _ event => event.1.Keeps) (Method.Invokes invoke))
      ({ memory := [1, 2, 3, 4], allocated := true, bufferEnd := 4, regionAPtr := 3,
          regionASize := 1, regionBPtr := none, regionBSize := 0 }, 0)
      [(.write [5], .flag true), (.getSpace, .size 2), (.store [6, 7], .done),
        (.incrementWritten 2, .done), (.write [8], .flag false)]
      ({ memory := [5, 6, 7, 4], allocated := true, bufferEnd := 4, regionAPtr := 3,
          regionASize := 1, regionBPtr := some 0, regionBSize := 3 }, 0) :=
    .cons ⟨trivial, .intro trivial rfl⟩ (.cons ⟨trivial, .intro trivial rfl⟩
      (.cons ⟨trivial, .intro (by decide) rfl⟩ (.cons ⟨trivial, .intro (by decide) rfl⟩
        (.cons ⟨trivial, .intro trivial rfl⟩ (.refl _)))))
  rcases sendSpan_stable [0, 0, 0, 0] run keeps with ⟨bytes, _, start⟩
  exact ⟨_, _, run, keeps, bytes, start (by decide)⟩

/-- The pointer of an empty span is null, and it moves with the first write. -/
theorem emptySpan_moves :
    Exists fun after =>
      Run (Method.Invokes invoke) (new.allocate [0], 0) [] (new.allocate [0], 0) ∧
      Run (Restrict (fun _ event => event.1.Keeps) (Method.Invokes invoke)) (new.allocate [0], 0)
        [(.write [1], .flag true)] (after, 0) ∧
      after.getBufferStart ≠ (new.allocate [0]).getBufferStart := by
  refine ⟨_, .refl _, .cons ⟨trivial, .intro trivial rfl⟩ (.refl _), ?_⟩
  decide

end BipBuffer
end ServerTech
