import ServerTech.CircularBuffer.Model
import ServerTech.BipBuffer.Interface

namespace ServerTech
namespace CircularBuffer

open Transition

/-!
# The circular buffer computes what the bip buffer computes

The two classes have the same fields under different names.  `toBip` renames
them, and each lemma below says that a method of one class commutes with the
renaming.  What was proved about the bip buffer then holds of the circular
buffer without a second proof.
-/

/-- The same fields under the names of the other class. -/
def toBip (c : CircularBuffer) : BipBuffer where
  memory := c.memory
  allocated := c.allocated
  bufferEnd := c.bufferEnd
  regionAPtr := c.regionAPointer
  regionASize := c.regionASize
  regionBPtr := c.regionBPointer
  regionBSize := c.regionBSize

theorem getSize_toBip (c : CircularBuffer) (allocated : c.allocated = true) :
    c.toBip.getSize = c.getSize :=
  if_pos allocated

theorem getContiguiousBytes_toBip (c : CircularBuffer) (allocated : c.allocated = true) :
    c.toBip.getContiguiousBytes = c.getContiguiousBytes :=
  if_pos allocated

/-- A space query answers the same and opens region B in the same cases. -/
theorem getSpace_toBip (c : CircularBuffer) :
    c.toBip.getSpace = (c.getSpace.1, c.getSpace.2.toBip) := by
  cases shape : c.regionBPointer with
  | some pointer =>
      simp only [getSpace, BipBuffer.getSpace, toBip, shape, getBFreeSpace,
        BipBuffer.getBFreeSpace]
  | none =>
      by_cases bigger : c.getAFreeSpace < c.getSpaceBeforeA
      · have same : c.toBip.getAFreeSpace < c.toBip.getSpaceBeforeA := bigger
        simp only [getSpace, shape, if_pos bigger]
        simp only [BipBuffer.getSpace, if_pos same]
        simp only [toBip, shape, allocateB, BipBuffer.allocateB, getBFreeSpace,
          BipBuffer.getBFreeSpace]
      · have same : ¬ c.toBip.getAFreeSpace < c.toBip.getSpaceBeforeA := bigger
        simp only [getSpace, shape, if_neg bigger]
        simp only [BipBuffer.getSpace, if_neg same]
        simp only [toBip, shape, getAFreeSpace, BipBuffer.getAFreeSpace]

theorem writeA_toBip (c : CircularBuffer) (data : List UInt8) :
    c.toBip.writeA data = (c.writeA data).map fun (ok, after) => (ok, after.toBip) := by
  unfold writeA BipBuffer.writeA
  by_cases full : c.getAFreeSpace < data.length
  · have same : c.toBip.getAFreeSpace < data.length := full
    rw [if_pos full, if_pos same]
    rfl
  · have same : ¬ c.toBip.getAFreeSpace < data.length := full
    rw [if_neg full, if_neg same, Option.map_map]
    rfl

theorem writeB_toBip (c : CircularBuffer) (pointer : Nat) (data : List UInt8) :
    c.toBip.writeB pointer data = (c.writeB pointer data).map fun (ok, after) => (ok, after.toBip) := by
  unfold writeB BipBuffer.writeB
  by_cases full : c.getBFreeSpace < data.length
  · have same : c.toBip.getBFreeSpace < data.length := full
    rw [if_pos full, if_pos same]
    rfl
  · have same : ¬ c.toBip.getBFreeSpace < data.length := full
    rw [if_neg full, if_neg same, Option.map_map]
    rfl

/-- A write goes to the same region in both classes. -/
theorem write_toBip (c : CircularBuffer) (data : List UInt8) :
    c.toBip.write data = (c.write data).map fun (ok, after) => (ok, after.toBip) := by
  unfold write BipBuffer.write
  by_cases allocated : c.allocated = true
  · have same : c.toBip.allocated = true := allocated
    rw [if_pos allocated, if_pos same]
    cases shape : c.regionBPointer with
    | some pointer =>
        have some_ : c.toBip.regionBPtr = some pointer := shape
        simp only [some_]
        exact writeB_toBip c pointer data
    | none =>
        have null : c.toBip.regionBPtr = none := shape
        simp only [null]
        by_cases bigger : c.getAFreeSpace < c.getSpaceBeforeA
        · have gap : c.toBip.getAFreeSpace < c.toBip.getSpaceBeforeA := bigger
          rw [if_pos bigger, if_pos gap]
          exact writeB_toBip c.allocateB 0 data
        · have gap : ¬ c.toBip.getAFreeSpace < c.toBip.getSpaceBeforeA := bigger
          rw [if_neg bigger, if_neg gap]
          exact writeA_toBip c data
  · have same : ¬ c.toBip.allocated = true := allocated
    rw [if_neg allocated, if_neg same]
    rfl

theorem readA_toBip (c : CircularBuffer) (cnt : Nat) :
    c.toBip.readA cnt = (c.readA cnt).map fun (data, left, after) => (data, left, after.toBip) := by
  unfold readA BipBuffer.readA
  by_cases some_ : 0 < c.regionASize
  · have same : 0 < c.toBip.regionASize := some_
    rw [if_pos some_, if_pos same, Option.map_map]
    rfl
  · have same : ¬ 0 < c.toBip.regionASize := some_
    rw [if_neg some_, if_neg same]
    rfl

theorem readB_toBip (c : CircularBuffer) (cnt : Nat) :
    c.toBip.readB cnt = (c.readB cnt).map fun (data, after) => (data, after.toBip) := by
  unfold readB BipBuffer.readB
  by_cases left : 0 < cnt ∧ 0 < c.regionBSize
  · have same : 0 < cnt ∧ 0 < c.toBip.regionBSize := left
    rw [if_pos left, if_pos same]
    cases shape : c.regionBPointer with
    | none =>
        have null : c.toBip.regionBPtr = none := shape
        rw [null]
        rfl
    | some pointer =>
        have some_ : c.toBip.regionBPtr = some pointer := shape
        rw [some_, Option.bind_some, Option.bind_some, Option.map_map]
        rfl
  · have same : ¬ (0 < cnt ∧ 0 < c.toBip.regionBSize) := left
    rw [if_neg left, if_neg same]
    rfl

/-- Both variants of the last assignments agree, because region A is empty
where they are made. -/
theorem settle_toBip (c : CircularBuffer) {reset : BipBuffer -> BipBuffer}
    (clears : forall d, d.regionASize = 0 -> reset d = d.resetRead) :
    c.toBip.settle reset = c.settle.map toBip := by
  unfold settle BipBuffer.settle
  change (if c.regionASize = 0 then _ else _) = _
  split
  · rename_i empty
    change (if 0 < c.regionBSize then _ else _) = _
    split
    · simp only [toBip]
      cases c.regionBPointer with
      | none => rfl
      | some pointer =>
          simp only [Option.bind_some, Option.map_map]
          rfl
    · rw [clears _ empty]
      rfl
  · rfl

/-- A read takes from region A and then from region B in both classes. -/
theorem read_toBip (c : CircularBuffer) (bytes : Nat) :
    c.toBip.read bytes = (c.read bytes).map fun (data, after) => (data, after.toBip) := by
  unfold read BipBuffer.read
  change (if c.allocated = true then _ else _) = _
  split
  · change (if c.regionASize + c.regionBSize < bytes then _ else _) = _
    split
    · rfl
    · rw [readA_toBip]
      cases c.readA bytes with
      | none => rfl
      | some first =>
          rcases first with ⟨aData, cnt, afterA⟩
          simp only [Option.map_some, Option.bind_some, readB_toBip]
          cases afterA.readB cnt with
          | none => rfl
          | some second =>
              rcases second with ⟨bData, afterB⟩
              simp only [Option.map_some, Option.bind_some]
              rw [settle_toBip afterB fun _ _ => rfl, Option.map_map, Option.map_map]
              rfl
  · rfl

theorem removeA_toBip (c : CircularBuffer) (cnt : Nat) :
    c.toBip.removeA cnt = ((c.removeA cnt).1, (c.removeA cnt).2.toBip) := by
  unfold removeA BipBuffer.removeA
  by_cases some_ : 0 < c.regionASize
  · have same : 0 < c.toBip.regionASize := some_
    rw [if_pos some_, if_pos same]
    rfl
  · have same : ¬ 0 < c.toBip.regionASize := some_
    rw [if_neg some_, if_neg same]

theorem removeB_toBip (c : CircularBuffer) (cnt : Nat) :
    c.toBip.removeB cnt = (c.removeB cnt).toBip := by
  unfold removeB BipBuffer.removeB
  by_cases left : 0 < cnt ∧ 0 < c.regionBSize
  · have same : 0 < cnt ∧ 0 < c.toBip.regionBSize := left
    rw [if_pos left, if_pos same]
    rfl
  · have same : ¬ (0 < cnt ∧ 0 < c.toBip.regionBSize) := left
    rw [if_neg left, if_neg same]

theorem remove_toBip (c : CircularBuffer) (allocated : c.allocated = true) (len : Nat) :
    c.toBip.remove len = (c.remove len).map toBip := by
  have same : c.toBip.allocated = true := allocated
  rw [remove, BipBuffer.remove, if_pos same]
  simp only [removeA_toBip, removeB_toBip]
  apply settle_toBip
  intro d empty
  cases d
  simp only at empty
  subst empty
  rfl

theorem getBuffer_toBip (c : CircularBuffer) : c.toBip.getBuffer = c.getBuffer :=
  rfl

theorem incrementWritten_toBip (c : CircularBuffer) (len : Nat) :
    c.toBip.incrementWritten len = (c.incrementWritten len).toBip := by
  unfold incrementWritten BipBuffer.incrementWritten
  cases shape : c.regionBPointer <;> simp only [toBip, shape]

theorem commit_toBip (c : CircularBuffer) (data : List UInt8) :
    c.toBip.commit data = (c.commit data).map toBip := by
  unfold commit BipBuffer.commit
  simp only [getSpace_toBip, Option.map_map]
  rw [getBuffer_toBip]
  change (Block.store c.getSpace.2.memory c.getSpace.2.getBuffer data).map _ = _
  congr 1
  funext memory
  exact incrementWritten_toBip { c.getSpace.2 with memory := memory } data.length

/-! ## Whole runs -/

/-- One call, with the conventions of `BipBuffer.invoke`. -/
def invoke (c : CircularBuffer) : Method -> Option (Reply × CircularBuffer)
  | .write data => (c.write data).map fun (ok, after) => (.flag ok, after)
  | .read bytes => (c.read bytes).map fun (data, after) => (.bytes data, after)
  | .remove len => (c.remove len).map fun after => (.done, after)
  | .getSpace => some (.size c.getSpace.1, c.getSpace.2)
  | .getSize => some (.size c.getSize, c)
  | .getContiguiousBytes => some (.size c.getContiguiousBytes, c)
  | .getBuffer => some (.pointer (some c.getBuffer), c)
  | .getBufferStart => some (.pointer c.getBufferStart, c)
  | .store data =>
      (Block.store c.memory c.getBuffer data).map fun memory => (.done, { c with memory := memory })
  | .incrementWritten len => some (.done, c.incrementWritten len)

/-- Every method of an allocated buffer commutes with the renaming. -/
theorem invoke_toBip (c : CircularBuffer) (allocated : c.allocated = true) (method : Method) :
    c.toBip.invoke method = (c.invoke method).map fun (reply, after) => (reply, after.toBip) := by
  cases method with
  | write data =>
      simp only [BipBuffer.invoke, invoke, write_toBip, Option.map_map]
      rfl
  | read bytes =>
      simp only [BipBuffer.invoke, invoke, read_toBip, Option.map_map]
      rfl
  | remove len =>
      simp only [BipBuffer.invoke, invoke, remove_toBip c allocated, Option.map_map]
      rfl
  | getSpace => simp only [BipBuffer.invoke, invoke, getSpace_toBip, Option.map_some]
  | getSize => simp only [BipBuffer.invoke, invoke, getSize_toBip c allocated, Option.map_some]
  | getContiguiousBytes =>
      simp only [BipBuffer.invoke, invoke, getContiguiousBytes_toBip c allocated, Option.map_some]
  | getBuffer => rfl
  | getBufferStart => rfl
  | store data =>
      simp only [BipBuffer.invoke, invoke, Option.map_map]
      rfl
  | incrementWritten len =>
      simp only [BipBuffer.invoke, invoke, incrementWritten_toBip, Option.map_some]

/-- No two circular buffers are renamed to the same bip buffer. -/
theorem toBip_injective : Function.Injective toBip := by
  rintro ⟨⟩ ⟨⟩ same
  cases same
  rfl

/-- The state of a client under the renaming. -/
def renamed (state : CircularBuffer × Nat) : BipBuffer × Nat :=
  (state.1.toBip, state.2)

/-- A call of one class is the same call of the other class. -/
theorem invokes_iff {before after : CircularBuffer × Nat} {event : Method × Reply}
    (allocated : before.1.allocated = true) :
    Method.Invokes invoke before event after ↔
      Method.Invokes BipBuffer.invoke (renamed before) event (renamed after) := by
  have same := invoke_toBip before.1 allocated event.1
  unfold Method.Invokes renamed
  rw [same]
  constructor
  · rintro ⟨permitted, returned, left⟩
    refine ⟨permitted, ?_, left⟩
    rw [returned, Option.map_some]
  · rintro ⟨permitted, returned, left⟩
    refine ⟨permitted, ?_, left⟩
    rcases Option.map_eq_some_iff.mp returned with ⟨⟨reply, next⟩, called, equal⟩
    rcases Prod.mk.inj equal with ⟨replies, states⟩
    rw [called, toBip_injective states, ← replies]

/-- Every run of the circular buffer is a run of the bip buffer. -/
theorem run_renamed {before after : CircularBuffer × Nat} {events : List (Method × Reply)}
    (covered : BipBuffer.Covered (renamed before))
    (run : Run (Method.Invokes invoke) before events after) :
    Run (Method.Invokes BipBuffer.invoke) (renamed before) events (renamed after) := by
  induction run with
  | refl => exact .refl _
  | snoc _ last inductionHypothesis =>
      have middle := (BipBuffer.run_covered inductionHypothesis covered).valid.allocated
      exact .snoc inductionHypothesis ((invokes_iff middle).mp last)

/-- Every run of the bip buffer is a run of the circular buffer. -/
theorem run_of_renamed {before : CircularBuffer × Nat} {start final : BipBuffer × Nat}
    {events : List (Method × Reply)} (covered : BipBuffer.Covered start)
    (same : renamed before = start)
    (run : Run (Method.Invokes BipBuffer.invoke) start events final) :
    Exists fun after => renamed after = final ∧ Run (Method.Invokes invoke) before events after := by
  induction run with
  | refl => exact ⟨before, same, .refl _⟩
  | @snoc _ final _ _ earlier last inductionHypothesis =>
      rcases inductionHypothesis with ⟨middle, rfl, run⟩
      have allocated := (BipBuffer.run_covered earlier covered).valid.allocated
      rcases last with ⟨permitted, returned, left⟩
      have called := returned
      rw [renamed, invoke_toBip middle.1 allocated] at called
      rcases Option.map_eq_some_iff.mp called with ⟨⟨reply, next⟩, _, equal⟩
      have renames : renamed (next, final.2) = final := Prod.ext (Prod.mk.inj equal).2 rfl
      refine ⟨(next, final.2), renames, .snoc run ((invokes_iff allocated).mpr ?_)⟩
      rw [renames]
      exact ⟨permitted, returned, left⟩

/-- The two classes agree.  From the same block, the calls of a client that
keeps its promise give the same replies on both, and leave the same pointers,
sizes and bytes.  Neither class makes a stray access on the next permitted
call, so the two never part ways. -/
theorem run_agrees (block : List UInt8) (events : List (Method × Reply)) (c : CircularBuffer)
    (promised : Nat) :
    (Run (Method.Invokes invoke) (new.allocate block, 0) events (c, promised) ↔
      Run (Method.Invokes BipBuffer.invoke) (BipBuffer.new.allocate block, 0) events
        (c.toBip, promised)) ∧
    (Run (Method.Invokes invoke) (new.allocate block, 0) events (c, promised) ->
      forall method : Method, method.Permitted promised ->
        Exists fun reply => Exists fun after => c.invoke method = some (reply, after) ∧
          c.toBip.invoke method = some (reply, after.toBip)) := by
  have fresh : BipBuffer.Covered (renamed (new.allocate block, 0)) :=
    BipBuffer.allocate_covered block
  refine ⟨⟨run_renamed fresh, ?_⟩, ?_⟩
  · intro run
    rcases run_of_renamed fresh rfl run with ⟨⟨after, left⟩, same, lifted⟩
    rcases Prod.mk.inj same with ⟨equal, rfl⟩
    cases toBip_injective equal
    exact lifted
  · intro run method permitted
    have covered := BipBuffer.run_covered (run_renamed fresh run) fresh
    rcases covered.invoke method permitted with ⟨reply, next, returned, _⟩
    have called : c.toBip.invoke method = some (reply, next) := returned
    rw [invoke_toBip c covered.valid.allocated] at called
    rcases Option.map_eq_some_iff.mp called with ⟨⟨reply', after⟩, invoked, equal⟩
    rcases Prod.mk.inj equal with ⟨rfl, rfl⟩
    exact ⟨reply', after, invoked, returned⟩

/-- A run that opens region B, fills it without a copy and removes across both
regions. -/
theorem run_agrees_four_bytes :
    Exists fun c : CircularBuffer =>
      Run (Method.Invokes BipBuffer.invoke) (BipBuffer.new.allocate [0, 0, 0, 0], 0)
        [(.write [1, 2, 3, 4], .flag true), (.read 3, .bytes (some [1, 2, 3])), (.getSpace, .size 3),
          (.getBuffer, .pointer (some 0)), (.store [5, 6], .done), (.incrementWritten 2, .done),
          (.remove 2, .done), (.getBufferStart, .pointer (some 0))] (c.toBip, 1) ∧
      c.toBip.content = [6] ∧
      Exists fun reply => Exists fun after => c.invoke (.read 1) = some (reply, after) ∧
        c.toBip.invoke (.read 1) = some (reply, after.toBip) := by
  have run : Run (Method.Invokes invoke) (new.allocate [0, 0, 0, 0], 0)
      [(.write [1, 2, 3, 4], .flag true), (.read 3, .bytes (some [1, 2, 3])), (.getSpace, .size 3),
        (.getBuffer, .pointer (some 0)), (.store [5, 6], .done), (.incrementWritten 2, .done),
        (.remove 2, .done), (.getBufferStart, .pointer (some 0))]
      ({ memory := [6, 6, 3, 4], allocated := true, bufferEnd := 4, regionAPointer := 0,
          regionASize := 1, regionBPointer := none, regionBSize := 0 }, 1) :=
    .cons (.intro trivial rfl) (.cons (.intro trivial rfl) (.cons (.intro trivial rfl)
      (.cons (.intro trivial rfl) (.cons (.intro (by decide) rfl)
        (.cons (.intro (by decide) rfl) (.cons (.intro trivial rfl)
          (.cons (.intro trivial rfl) (.refl _))))))))
  have next := (run_agrees [0, 0, 0, 0] _ _ _).2 run (.read 1) trivial
  exact ⟨_, (run_agrees [0, 0, 0, 0] _ _ _).1.mp run, rfl, next⟩

end CircularBuffer
end ServerTech
