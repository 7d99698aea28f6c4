import Mathlib.Data.List.Induction
import ServerTech.Foundation.Transition
import ServerTech.Kcp.Client

namespace ServerTech
namespace Kcp

open Transition

/-!
# How the client depends on the chunks

The walk of `recv` is right: over a string of complete frames it processes
each frame once, and it stops in front of an incomplete one.  What it leaves
behind is not.  The bytes of the frames it has walked over stay in the string,
because the value of `substr` is dropped, while the counter counts only the
bytes behind them.  The two agree again only when the string is cleared.

So the client follows the frames exactly when every chunk that completes a
frame ends with it.  Two conditions of lesser weight come with that: the
counter must not wrap, and a size that is read behind the end of the string
must not wrap either.
-/

/-! ## The header words -/

theorem length_encode (frame : Frame) : (encode frame).length = frame.payload.length + 12 := by
  simp only [encode, List.length_append, LittleEndian.length_encode]
  omega

theorem length_le_stream (frames : List Frame) :
    frames.length ≤ (Framing.stream encode frames).length := by
  induction frames with
  | nil => exact Nat.le_refl 0
  | cons frame frames inductionHypothesis =>
      rw [Framing.stream_cons, List.length_append, length_encode, List.length_cons]
      omega

/-- The word at the place where a 32-bit field was written. -/
theorem word_field (before : List UInt8) (value : Nat) (after : List UInt8) :
    word (before ++ (LittleEndian.encode 4 value ++ after)) before.length = UInt32.ofNat value := by
  have length := LittleEndian.length_encode 4 value
  have same := Block.slice_append_right before (LittleEndian.encode 4 value ++ after) 0 4
  have first : Block.slice (LittleEndian.encode 4 value ++ after) 0 4 =
      Block.slice (LittleEndian.encode 4 value) 0 4 :=
    Block.slice_append_left _ _ (Nat.le_of_eq length.symm)
  have whole : Block.slice (LittleEndian.encode 4 value) 0 4 = LittleEndian.encode 4 value := by
    rw [Block.slice, List.drop_zero, List.take_of_length_le (Nat.le_of_eq length)]
  rw [Nat.add_zero] at same
  rw [word, same, first, whole, LittleEndian.decode_encode]
  apply UInt32.toNat_inj.mp
  rw [UInt32.toNat_ofNat', UInt32.toNat_ofNat']
  exact Nat.mod_mod _ _

/-- The words of a header in front of anything. -/
theorem word_encode (frame : Frame) (rest : List UInt8) :
    word (encode frame ++ rest) 0 = frame.sn ∧ word (encode frame ++ rest) 4 = frame.ts ∧
      word (encode frame ++ rest) 8 = UInt32.ofNat frame.payload.length := by
  refine ⟨?_, ?_, ?_⟩
  · have first := word_field [] frame.sn.toNat (LittleEndian.encode 4 frame.ts.toNat ++
      (LittleEndian.encode 4 frame.payload.length ++ (frame.payload ++ rest)))
    rw [UInt32.ofNat_toNat, List.nil_append, List.length_nil] at first
    simpa only [encode, List.append_assoc] using first
  · have second := word_field (LittleEndian.encode 4 frame.sn.toNat) frame.ts.toNat
      (LittleEndian.encode 4 frame.payload.length ++ (frame.payload ++ rest))
    rw [UInt32.ofNat_toNat, LittleEndian.length_encode] at second
    simpa only [encode, List.append_assoc] using second
  · have third := word_field (LittleEndian.encode 4 frame.sn.toNat ++
      LittleEndian.encode 4 frame.ts.toNat) frame.payload.length (frame.payload ++ rest)
    rw [List.length_append, LittleEndian.length_encode, LittleEndian.length_encode] at third
    simpa only [encode, List.append_assoc] using third

/-- The size the loop computes at the start of a frame is the frame's length. -/
theorem size_encode {frame : Frame} (sized : frame.Sized) (rest : List UInt8) :
    (word (encode frame ++ rest) 8 + 12).toNat = (encode frame).length := by
  have small : frame.payload.length < 2 ^ 32 := Nat.lt_of_le_of_lt (Nat.le_add_right _ 12) sized
  have length : (UInt32.ofNat frame.payload.length).toNat = frame.payload.length :=
    UInt32.toNat_ofNat_of_lt' small
  rw [(word_encode frame rest).2.2, UInt32.toNat_add, length, length_encode]
  exact Nat.mod_eq_of_lt sized

/-- A frame of which the header has arrived shows its length. -/
theorem size_of_header {frame : Frame} (sized : frame.Sized) {part : List UInt8}
    (starts : part <+: encode frame) (header : 12 ≤ part.length) (behind : List UInt8) :
    (word (part ++ behind) 8 + 12).toNat = (encode frame).length := by
  rcases starts with ⟨rest, whole⟩
  have same : word (part ++ behind) 8 = word (encode frame ++ []) 8 := by
    rw [List.append_nil, ← whole, word, word, Block.slice_append_left _ _ (by omega),
      Block.slice_append_left _ _ (by omega)]
  rw [same, size_encode sized]

/-! ## The walk -/

namespace Loop

theorem front_eq (call : Call) {l : Loop} (inside : l.ptr ≤ l.client.readBuffer.length) :
    l.front call = l.client.readBuffer.drop l.ptr ++ 0 :: call.beyond := by
  rw [front, List.drop_append_of_le_length inside]

/-- The pointer is inside the string when something is left behind it. -/
theorem inside_of_drop {cells left : List UInt8} {ptr : Nat} (layout : cells.drop ptr = left)
    (some_ : 0 < left.length) : ptr ≤ cells.length := by
  have length := congrArg List.length layout
  rw [List.length_drop] at length
  omega

theorem sz_frame (call : Call) {l : Loop} {frame : Frame} {rest : List UInt8}
    (sized : frame.Sized) (layout : l.client.readBuffer.drop l.ptr = encode frame ++ rest) :
    (l.sz call).toNat = (encode frame).length := by
  have inside := inside_of_drop layout (by rw [List.length_append, length_encode]; omega)
  rw [sz, front_eq call inside, layout, List.append_assoc, size_encode sized]

/-- A pass over a complete frame. -/
theorem iterate_frame (call : Call) {l : Loop} {frame : Frame} {rest : List UInt8}
    (sized : frame.Sized) (layout : l.client.readBuffer.drop l.ptr = encode frame ++ rest)
    (enough : (encode frame).length ≤ l.client.recvBytes.toNat) :
    Exists fun following => l.iterate call = some following ∧
      following.client.readBuffer = l.client.readBuffer ∧
      following.ptr = l.ptr + (encode frame).length ∧
      following.client.recvBytes.toNat + (encode frame).length = l.client.recvBytes.toNat ∧
      following.client.processed = l.client.processed ++ [frame] := by
  have size := sz_frame call sized layout
  have inside := inside_of_drop layout (by rw [List.length_append, length_encode]; omega)
  have some_ : l.client.recvBytes ≠ 0 := by
    intro zero
    rw [zero, length_encode] at enough
    exact absurd enough (Nat.not_succ_le_zero _)
  have fits : l.sz call ≤ l.client.recvBytes := by
    rw [UInt32.le_iff_toNat_le, size]
    exact enough
  rcases iterate_isSome some_ fits with ⟨following, pass⟩
  have used := iterate_recvBytes pass
  rcases iterate_cases pass with ⟨_, _, after, ptr⟩
  rw [size] at used ptr
  refine ⟨following, pass, iterate_readBuffer pass, ptr, used, ?_⟩
  have front := front_eq call inside
  rw [layout, List.append_assoc] at front
  have words := word_encode frame (rest ++ 0 :: call.beyond)
  have payload : Block.slice l.client.readBuffer (l.ptr + 12) ((encode frame).length - 12) =
      frame.payload := by
    have header : encode frame = (LittleEndian.encode 4 frame.sn.toNat ++
        (LittleEndian.encode 4 frame.ts.toNat ++
          LittleEndian.encode 4 frame.payload.length)) ++ frame.payload := by
      simp only [encode, List.append_assoc]
    rw [Block.slice, ← List.drop_drop, layout, length_encode, Nat.add_sub_cancel, header,
      List.append_assoc]
    rw [List.drop_left' (by simp only [List.length_append, LittleEndian.length_encode]),
      List.take_left' rfl]
  rw [after]
  simp only [process, front, words, size, payload]

/-- A frame that is not complete stops the walk. -/
theorem iterate_short (call : Call) {l : Loop} (short : l.client.recvBytes < l.sz call) :
    l.iterate call = none := by
  unfold iterate
  by_cases empty : l.client.recvBytes = 0
  · rw [if_pos empty]
  · rw [if_neg empty, if_pos short]

/-- Complete frames that the counter covers are all walked over. -/
theorem loop_frames (call : Call) {frames : List Frame} {rest : List UInt8} {l : Loop}
    (sized : forall frame, frame ∈ frames -> frame.Sized)
    (layout : l.client.readBuffer.drop l.ptr = Framing.stream encode frames ++ rest)
    (enough : (Framing.stream encode frames).length ≤ l.client.recvBytes.toNat) :
    Exists fun after => (forall fuel, loop call (fuel + frames.length) l = loop call fuel after) ∧
      after.client.readBuffer = l.client.readBuffer ∧
      after.ptr = l.ptr + (Framing.stream encode frames).length ∧
      after.client.recvBytes.toNat + (Framing.stream encode frames).length =
        l.client.recvBytes.toNat ∧
      after.client.processed = l.client.processed ++ frames := by
  induction frames generalizing l with
  | nil => exact ⟨l, fun _ => rfl, rfl, rfl, rfl, (List.append_nil _).symm⟩
  | cons frame frames inductionHypothesis =>
      rw [Framing.stream_cons, List.append_assoc] at layout
      rw [Framing.stream_cons, List.length_append] at enough ⊢
      rcases iterate_frame call (sized frame List.mem_cons_self) layout (by omega) with
        ⟨following, pass, buffer, ptr, used, processed⟩
      have behind : following.client.readBuffer.drop following.ptr =
          Framing.stream encode frames ++ rest := by
        rw [buffer, ptr, ← List.drop_drop, layout, List.drop_left]
      rcases inductionHypothesis (fun other member => sized other (List.mem_cons_of_mem _ member))
        behind (by omega) with ⟨after, runs, buffer', ptr', used', processed'⟩
      refine ⟨after, ?_, buffer'.trans buffer, ?_, ?_, ?_⟩
      · intro fuel
        rw [List.length_cons, ← Nat.add_assoc, loop_succ_of_some _ pass, runs]
      · rw [ptr', ptr, Nat.add_assoc]
      · omega
      · rw [processed', processed, List.append_assoc, List.singleton_append]

/-- A walk never takes back what it has processed. -/
theorem loop_processed {call : Call} {fuel : Nat} {l result : Loop}
    (done : loop call fuel l = some result) :
    l.client.processed.length ≤ result.client.processed.length := by
  induction fuel generalizing l with
  | zero => cases done
  | succ fuel inductionHypothesis =>
      cases pass : l.iterate call with
      | none =>
          rw [loop_succ_of_none fuel pass] at done
          cases done
          exact Nat.le_refl _
      | some following =>
          rw [loop_succ_of_some fuel pass] at done
          have grown : following.client.processed.length = l.client.processed.length + 1 := by
            rw [(iterate_cases pass).2.2.1]
            exact List.length_append
          have more := inductionHypothesis done
          omega

/-- Complete frames that the counter does not cover are not all processed. -/
theorem loop_uncovered (call : Call) {frames : List Frame} {rest : List UInt8} {fuel : Nat}
    {l result : Loop} (sized : forall frame, frame ∈ frames -> frame.Sized)
    (layout : l.client.readBuffer.drop l.ptr = Framing.stream encode frames ++ rest)
    (uncovered : l.client.recvBytes.toNat < (Framing.stream encode frames).length)
    (done : loop call fuel l = some result) :
    result.client.processed.length < l.client.processed.length + frames.length := by
  induction frames generalizing l fuel with
  | nil => exact absurd uncovered (Nat.not_lt_zero _)
  | cons frame frames inductionHypothesis =>
      rw [Framing.stream_cons, List.append_assoc] at layout
      rw [Framing.stream_cons, List.length_append] at uncovered
      cases fuel with
      | zero => cases done
      | succ fuel =>
          by_cases enough : (encode frame).length ≤ l.client.recvBytes.toNat
          · rcases iterate_frame call (sized frame List.mem_cons_self) layout enough with
              ⟨following, pass, buffer, ptr, used, processed⟩
            have behind : following.client.readBuffer.drop following.ptr =
                Framing.stream encode frames ++ rest := by
              rw [buffer, ptr, ← List.drop_drop, layout, List.drop_left]
            rw [loop_succ_of_some fuel pass] at done
            have fewer := inductionHypothesis
              (fun other member => sized other (List.mem_cons_of_mem _ member)) behind
              (by omega) done
            rw [processed, List.length_append, List.length_singleton] at fewer
            rw [List.length_cons]
            omega
          · have short : l.client.recvBytes < l.sz call := by
              rw [UInt32.lt_iff_toNat_lt, sz_frame call (sized frame List.mem_cons_self) layout]
              omega
            rw [loop_succ_of_none fuel (iterate_short call short)] at done
            cases done
            rw [List.length_cons]
            omega

end Loop

/-! ## One call -/

namespace Client

/-- The client has processed `frames` and holds exactly the bytes `rest`. -/
structure Holds (c : Client) (frames : List Frame) (rest : List UInt8) : Prop where
  processed : c.processed = frames
  readBuffer : c.readBuffer = rest
  recvBytes : c.recvBytes.toNat = rest.length

/-- The size the loop reads at the start of `rest`, when that is all the
string holds. -/
def sizeSeen (rest : List UInt8) (call : Call) : Nat :=
  (word (rest ++ 0 :: call.beyond) 8 + 12).toNat

theorem step_eq_some {c after : Client} {call : Call} :
    c.step call = some after ↔ Exists fun l =>
      Loop.loop call ((c.append call).recvBytes.toNat + 1)
        { client := c.append call, ptr := 0, ret := 0 } = some l ∧ l.client.settle = some after := by
  simp only [step, recv, Option.map_eq_some_iff, Option.bind_eq_some_iff]
  constructor
  · rintro ⟨_, ⟨l, walked, settled, ended, rfl⟩, rfl⟩
    exact ⟨l, walked, ended⟩
  · rintro ⟨l, walked, ended⟩
    exact ⟨(l.ret, after), ⟨l, walked, after, ended, rfl⟩, rfl⟩

theorem settle_processed {c after : Client} (settled : c.settle = some after) :
    after.processed = c.processed := by
  unfold settle at settled
  by_cases empty : c.recvBytes = 0
  · rw [if_pos empty] at settled
    cases settled
    rfl
  · by_cases short : c.readBuffer.length < c.recvBytes.toNat
    · rw [if_neg empty, if_pos short] at settled
      cases settled
    · rw [if_neg empty, if_neg short] at settled
      cases settled
      rfl

theorem settle_of_pos {c : Client} (some_ : c.recvBytes ≠ 0)
    (covered : c.recvBytes.toNat ≤ c.readBuffer.length) : c.settle = some c := by
  rw [settle, if_neg some_, if_neg (Nat.not_lt.mpr covered)]

/-- What a call needs to process the complete frames and keep the rest: no
frame is completed or nothing is left over, the counter does not wrap, and a
size read behind the end of the string is not small. -/
structure Aligned (held : List UInt8) (call : Call) (complete : List Frame)
    (rest : List UInt8) : Prop where
  boundary : complete = [] ∨ rest = []
  counter : held.length + call.chunk.length < 2 ^ 32
  behind : rest ≠ [] -> rest.length < 12 -> rest.length < sizeSeen rest call

section OneCall

variable {c : Client} {call : Call} {frames complete : List Frame} {held rest : List UInt8}

theorem append_holds (holds : c.Holds frames held) (some_ : call.chunk ≠ []) :
    (c.append call).processed = frames ∧ (c.append call).readBuffer = held ++ call.chunk ∧
      (c.append call).recvBytes.toNat = (held.length + call.chunk.length) % 2 ^ 32 := by
  rw [append, if_neg some_]
  refine ⟨holds.processed, congrArg (· ++ call.chunk) holds.readBuffer, ?_⟩
  change (c.recvBytes + UInt32.ofNat call.chunk.length).toNat = _
  rw [UInt32.toNat_add, UInt32.toNat_ofNat', holds.recvBytes, Nat.add_mod_mod]

/-- A wrapped counter loses a complete frame. -/
theorem step_wrapped (holds : c.Holds frames held) (some_ : call.chunk ≠ [])
    (sized : forall frame, frame ∈ complete -> frame.Sized)
    (layout : held ++ call.chunk = Framing.stream encode complete ++ rest)
    (small : rest.length < 2 ^ 32) (wraps : 2 ^ 32 ≤ held.length + call.chunk.length)
    {after : Client} (stepped : c.step call = some after) :
    after.processed ≠ frames ++ complete := by
  rcases step_eq_some.mp stepped with ⟨l, walked, settled⟩
  rcases append_holds holds some_ with ⟨processed, buffer, bytes⟩
  have length := congrArg List.length layout
  rw [List.length_append, List.length_append] at length
  have uncovered : (c.append call).recvBytes.toNat < (Framing.stream encode complete).length := by
    rw [bytes]
    omega
  have fewer := Loop.loop_uncovered call (l := { client := c.append call, ptr := 0, ret := 0 })
    sized (buffer.trans layout) uncovered walked
  intro same
  rw [← settle_processed settled, same, List.length_append] at fewer
  change _ < (c.append call).processed.length + _ at fewer
  rw [processed] at fewer
  exact Nat.lt_irrefl _ fewer

/-- The walk has come to the bytes behind the complete frames. -/
structure Reached (call : Call) (l : Loop) (processed : List Frame)
    (buffer rest : List UInt8) : Prop where
  buffer : l.client.readBuffer = buffer
  front : l.front call = rest ++ 0 :: call.beyond
  bytes : l.client.recvBytes.toNat = rest.length
  processed : l.client.processed = processed

/-- Without a wrap the walk comes to the bytes behind the complete frames,
with at least one pass left. -/
theorem walk_complete (holds : c.Holds frames held) (some_ : call.chunk ≠ [])
    (sized : forall frame, frame ∈ complete -> frame.Sized)
    (layout : held ++ call.chunk = Framing.stream encode complete ++ rest)
    (counter : held.length + call.chunk.length < 2 ^ 32) :
    Exists fun fuel => Exists fun l : Loop =>
      Loop.loop call ((c.append call).recvBytes.toNat + 1)
        { client := c.append call, ptr := 0, ret := 0 } = Loop.loop call (fuel + 1) l ∧
      Reached call l (frames ++ complete) (Framing.stream encode complete ++ rest) rest := by
  rcases append_holds holds some_ with ⟨processed, buffer, bytes⟩
  have length := congrArg List.length layout
  rw [List.length_append, List.length_append] at length
  rw [Nat.mod_eq_of_lt counter, length] at bytes
  have many := length_le_stream complete
  rcases Loop.loop_frames call (l := { client := c.append call, ptr := 0, ret := 0 }) sized
    (buffer.trans layout) (by change _ ≤ (c.append call).recvBytes.toNat; omega) with
    ⟨l, walked, sameBuffer, ptr, used, done⟩
  have whole : l.client.readBuffer = Framing.stream encode complete ++ rest :=
    (sameBuffer.trans buffer).trans layout
  refine ⟨(c.append call).recvBytes.toNat - complete.length, l, ?_, whole, ?_, ?_, ?_⟩
  · rw [← walked]
    congr 1
    omega
  · rw [Loop.front, ptr, whole, Nat.zero_add, List.append_assoc, List.drop_left]
  · change _ = (c.append call).recvBytes.toNat at used
    omega
  · rw [done]
    exact congrArg (· ++ complete) processed

section Behind

variable {l : Loop} {buffer : List UInt8}

theorem Reached.sz_eq (reached : Reached call l frames buffer rest) :
    (l.sz call).toNat = sizeSeen rest call := by
  rw [Loop.sz, reached.front, sizeSeen]

theorem Reached.pending (reached : Reached call l frames buffer rest) (left : rest ≠ []) :
    l.client.recvBytes ≠ 0 := by
  intro zero
  have bytes := reached.bytes
  rw [zero] at bytes
  exact left (List.eq_nil_of_length_eq_zero bytes.symm)

/-- With nothing left the string is cleared. -/
theorem Reached.cleared (reached : Reached call l frames buffer []) (fuel : Nat) :
    Loop.loop call (fuel + 1) l = some l ∧
      l.client.settle = some { l.client with readBuffer := [] } := by
  have empty : l.client.recvBytes = 0 := UInt32.toNat_inj.mp reached.bytes
  constructor
  · exact Loop.loop_succ_of_none fuel (by rw [Loop.iterate, if_pos empty])
  · rw [settle, if_pos empty]

/-- With an incomplete frame left the walk stops and the string stays. -/
theorem Reached.stopped (reached : Reached call l frames buffer rest) (fuel : Nat)
    (left : rest ≠ []) (within : rest.length ≤ buffer.length)
    (short : rest.length < sizeSeen rest call) :
    Loop.loop call (fuel + 1) l = some l ∧ l.client.settle = some l.client := by
  constructor
  · apply Loop.loop_succ_of_none fuel
    apply Loop.iterate_short call
    rw [UInt32.lt_iff_toNat_lt, reached.bytes, reached.sz_eq]
    exact short
  · apply settle_of_pos (reached.pending left)
    rw [reached.bytes, reached.buffer]
    exact within

/-- With a small size seen the walk processes something that is no frame. -/
theorem Reached.overrun (reached : Reached call l frames buffer rest) {fuel : Nat}
    (left : rest ≠ []) (small : sizeSeen rest call ≤ rest.length) {result : Loop}
    (done : Loop.loop call (fuel + 1) l = some result) :
    frames.length < result.client.processed.length := by
  have enough : l.sz call ≤ l.client.recvBytes := by
    rw [UInt32.le_iff_toNat_le, reached.bytes, reached.sz_eq]
    exact small
  rcases Loop.iterate_isSome (reached.pending left) enough with ⟨following, pass⟩
  rw [Loop.loop_succ_of_some fuel pass] at done
  have more := Loop.loop_processed done
  rw [(Loop.iterate_cases pass).2.2.1] at more
  change (l.client.processed ++ [_]).length ≤ _ at more
  rw [List.length_append, List.length_singleton, reached.processed] at more
  exact more

end Behind

theorem complete_of_stream_nil (nothing : Framing.stream encode complete = []) :
    complete = [] := by
  have few := length_le_stream complete
  rw [nothing] at few
  exact List.eq_nil_of_length_eq_zero (Nat.eq_zero_of_le_zero few)

/-- One call does what the frames ask for exactly when it is aligned. -/
theorem step_holds_iff (holds : c.Holds frames held) (some_ : call.chunk ≠ [])
    (sized : forall frame, frame ∈ complete -> frame.Sized)
    (layout : held ++ call.chunk = Framing.stream encode complete ++ rest)
    (small : rest.length < 2 ^ 32)
    (header : 12 ≤ rest.length -> rest.length < sizeSeen rest call) :
    (Exists fun after => c.step call = some after ∧ after.Holds (frames ++ complete) rest) ↔
      Aligned held call complete rest := by
  constructor
  · rintro ⟨after, stepped, afterHolds⟩
    have counter : held.length + call.chunk.length < 2 ^ 32 := by
      apply Nat.lt_of_not_le
      intro wraps
      exact step_wrapped holds some_ sized layout small wraps stepped afterHolds.processed
    rcases walk_complete holds some_ sized layout counter with ⟨fuel, l, walked, reached⟩
    rcases step_eq_some.mp stepped with ⟨result, done, settled⟩
    rw [walked] at done
    have seen : rest ≠ [] -> rest.length < sizeSeen rest call := by
      intro left
      apply Nat.lt_of_not_le
      intro small
      have more := reached.overrun left small done
      rw [← settle_processed settled, afterHolds.processed] at more
      exact Nat.lt_irrefl _ more
    refine ⟨?_, counter, fun left _ => seen left⟩
    by_cases left : rest = []
    · exact Or.inr left
    · have within : rest.length ≤ (Framing.stream encode complete ++ rest).length := by
        rw [List.length_append]
        exact Nat.le_add_left _ _
      rcases reached.stopped fuel left within (seen left) with ⟨stopped, kept⟩
      rw [stopped] at done
      cases done
      rw [kept] at settled
      cases settled
      have whole := reached.buffer.symm.trans afterHolds.readBuffer
      exact Or.inl (complete_of_stream_nil
        (List.append_cancel_right (whole.trans (List.nil_append rest).symm)))
  · intro aligned
    rcases walk_complete holds some_ sized layout aligned.counter with ⟨fuel, l, walked, reached⟩
    by_cases left : rest = []
    · subst left
      rcases reached.cleared fuel with ⟨stopped, cleared⟩
      exact ⟨_, step_eq_some.mpr ⟨l, walked.trans stopped, cleared⟩,
        reached.processed, rfl, reached.bytes⟩
    · have none_ : complete = [] := aligned.boundary.resolve_right left
      have seen : rest.length < sizeSeen rest call := by
        by_cases cut : rest.length < 12
        · exact aligned.behind left cut
        · exact header (Nat.le_of_not_lt cut)
      subst none_
      rcases reached.stopped fuel left (Nat.le_refl _) seen with ⟨stopped, kept⟩
      exact ⟨_, step_eq_some.mpr ⟨l, walked.trans stopped, kept⟩,
        reached.processed, reached.buffer, reached.bytes⟩

end OneCall

/-! ## Runs -/

/-- The bytes given to the calls so far. -/
def delivered (calls : List Call) : List UInt8 :=
  (calls.map Call.chunk).flatten

theorem delivered_snoc (calls : List Call) (call : Call) :
    delivered (calls ++ [call]) = delivered calls ++ call.chunk := by
  simp only [delivered, List.map_append, List.flatten_append, List.map_cons, List.map_nil,
    List.flatten_cons, List.flatten_nil, List.append_nil]

/-- The client has processed the frames that arrived completely and keeps the
incomplete rest. -/
def Follows (c : Client) (frames : List Frame) (arrived : List UInt8) : Prop :=
  c.Holds (Framing.completed encode frames arrived.length)
    (Framing.remainder encode frames arrived)

/-- The condition on a chunk, in terms of the frames and the bytes that arrived
before it. -/
structure Fits (frames : List Frame) (arrived : List UInt8) (call : Call) : Prop where
  boundary :
    Framing.completed encode frames (arrived ++ call.chunk).length =
        Framing.completed encode frames arrived.length ∨
      Framing.remainder encode frames (arrived ++ call.chunk) = []
  counter : (Framing.remainder encode frames arrived).length + call.chunk.length < 2 ^ 32
  behind : Framing.remainder encode frames (arrived ++ call.chunk) ≠ [] ->
    (Framing.remainder encode frames (arrived ++ call.chunk)).length < 12 ->
    (Framing.remainder encode frames (arrived ++ call.chunk)).length <
      sizeSeen (Framing.remainder encode frames (arrived ++ call.chunk)) call

/-- A part of the next frame is short, and shows the length of that frame once
its header is there. -/
theorem rest_bounds {later : List Frame} {rest : List UInt8} (call : Call)
    (sized : forall frame, frame ∈ later -> frame.Sized)
    (starts : rest <+: Framing.stream encode later)
    (short : forall frame frames, later = frame :: frames -> rest.length < (encode frame).length) :
    rest.length < 2 ^ 32 ∧ (12 ≤ rest.length -> rest.length < sizeSeen rest call) := by
  cases later with
  | nil =>
      rw [Framing.stream_nil, List.prefix_nil] at starts
      subst starts
      exact ⟨by decide, fun header => absurd header (by decide)⟩
  | cons frame frames =>
      have sizedFrame := sized frame List.mem_cons_self
      have shorter := short frame frames rfl
      have part : rest <+: encode frame := by
        rw [Framing.stream_cons] at starts
        exact List.prefix_of_prefix_length_le starts (List.prefix_append _ _)
          (Nat.le_of_lt shorter)
      constructor
      · rw [length_encode] at shorter
        exact Nat.lt_trans shorter sizedFrame
      · intro header
        rw [sizeSeen, size_of_header sizedFrame part header]
        exact shorter

theorem step_follows_iff {c : Client} {call : Call} {frames : List Frame} {arrived : List UInt8}
    (sized : forall frame, frame ∈ frames -> frame.Sized)
    (cut : arrived ++ call.chunk <+: Framing.stream encode frames) (some_ : call.chunk ≠ [])
    (follows : c.Follows frames arrived) :
    (Exists fun after => c.step call = some after ∧
      after.Follows frames (arrived ++ call.chunk)) ↔ Fits frames arrived call := by
  rcases Framing.exists_split encode ((List.prefix_append _ _).trans cut) with
    ⟨following, equal, layout, _, _⟩
  have grown : arrived ++ call.chunk =
      Framing.stream encode (Framing.completed encode frames arrived.length) ++
        (Framing.remainder encode frames arrived ++ call.chunk) := by
    rw [← List.append_assoc, ← layout]
  generalize doneEq : Framing.completed encode frames arrived.length = done at *
  generalize heldEq : Framing.remainder encode frames arrived = held at *
  subst equal
  have complete := Framing.completed_append encode done following (held ++ call.chunk)
  have left := Framing.remainder_append encode done following (held ++ call.chunk)
  rw [← grown] at complete left
  rw [grown, Framing.stream_append, List.prefix_append_right_inj] at cut
  rcases Framing.exists_split encode cut with ⟨later, equal, parts, starts, short⟩
  have sizedFollowing : forall frame, frame ∈ following -> frame.Sized := fun frame member =>
    sized frame (List.mem_append.mpr (Or.inr member))
  generalize completeEq : Framing.completed encode following (held ++ call.chunk).length = added at *
  generalize restEq : Framing.remainder encode following (held ++ call.chunk) = rest at *
  have sizedAdded : forall frame, frame ∈ added -> frame.Sized := fun frame member =>
    sizedFollowing frame (equal ▸ List.mem_append.mpr (Or.inl member))
  have sizedLater : forall frame, frame ∈ later -> frame.Sized := fun frame member =>
    sizedFollowing frame (equal ▸ List.mem_append.mpr (Or.inr member))
  rcases rest_bounds call sizedLater starts short with ⟨small, header⟩
  have holds : c.Holds done held := by
    rw [← doneEq, ← heldEq]
    exact follows
  have one := step_holds_iff holds some_ sizedAdded parts small header
  constructor
  · rintro ⟨after, stepped, afterFollows⟩
    rw [Follows, complete, left] at afterFollows
    rcases one.mp ⟨after, stepped, afterFollows⟩ with ⟨boundary, counter, behind⟩
    refine ⟨?_, ?_, ?_⟩
    · rw [complete, left, doneEq]
      rcases boundary with none_ | ended
      · exact Or.inl (by rw [none_, List.append_nil])
      · exact Or.inr ended
    · rw [heldEq]
      exact counter
    · rw [left]
      exact behind
  · rintro ⟨boundary, counter, behind⟩
    rw [complete, left, doneEq] at boundary
    rw [heldEq] at counter
    rw [left] at behind
    have aligned : Aligned held call added rest := by
      refine ⟨?_, counter, behind⟩
      rcases boundary with same | ended
      · exact Or.inl (List.append_right_eq_self.mp same)
      · exact Or.inr ended
    rcases one.mpr aligned with ⟨after, stepped, afterHolds⟩
    refine ⟨after, stepped, ?_⟩
    rw [Follows, complete, left]
    exact afterHolds

theorem new_follows (testCount : UInt32) (addDelay : Bool) (frames : List Frame) :
    (new testCount addDelay).Follows frames [] := by
  have none_ : Framing.completed encode frames ([] : List UInt8).length = [] := by
    cases frames with
    | nil => rfl
    | cons frame frames =>
        rw [Framing.completed, if_neg (by rw [length_encode]; exact Nat.not_succ_le_zero _)]
  constructor
  · exact none_.symm
  · exact List.drop_nil.symm
  · rw [Framing.remainder, List.drop_nil]
    rfl

/-- Up to a call, the bytes that arrive are a part of the stream. -/
theorem delivered_isPrefix {frames : List Frame} {calls earlier later : List Call} {call : Call}
    (cut : delivered calls <+: Framing.stream encode frames)
    (split : calls = earlier ++ call :: later) :
    delivered earlier ++ call.chunk <+: Framing.stream encode frames := by
  rw [← delivered_snoc]
  refine List.IsPrefix.trans ?_ cut
  rw [split, List.append_cons earlier call later]
  simp only [delivered, List.map_append, List.flatten_append]
  exact List.prefix_append _ _

/-- The client follows the frames as long as the chunks fit. -/
theorem follows_of_fits {testCount : UInt32} {addDelay : Bool} {frames : List Frame}
    {calls : List Call} (sized : forall frame, frame ∈ frames -> frame.Sized)
    (some_ : forall call, call ∈ calls -> call.chunk ≠ [])
    (cut : delivered calls <+: Framing.stream encode frames)
    (fits : forall earlier call later, calls = earlier ++ call :: later ->
      Fits frames (delivered earlier) call)
    {earlier later : List Call} (split : calls = earlier ++ later) :
    Exists fun c => execute step (new testCount addDelay) earlier = some c ∧
      c.Follows frames (delivered earlier) := by
  induction earlier using List.reverseRecOn generalizing later with
  | nil => exact ⟨_, rfl, new_follows testCount addDelay frames⟩
  | append_singleton earlier call inductionHypothesis =>
      rw [← List.append_cons] at split
      have chunk : call.chunk ≠ [] := by
        apply some_
        rw [split]
        exact List.mem_append_right _ List.mem_cons_self
      rcases inductionHypothesis split with ⟨c, executed, before⟩
      rcases (step_follows_iff sized (delivered_isPrefix cut split) chunk before).mpr
        (fits _ _ _ split) with ⟨after, stepped, afterFollows⟩
      refine ⟨after, ?_, ?_⟩
      · rw [execute_snoc, executed, Option.bind_some, stepped]
      · rw [delivered_snoc]
        exact afterFollows

/-- The client processes the frames that arrived and keeps the incomplete rest
after every call, exactly when every chunk fits. -/
theorem follows_iff_fits (testCount : UInt32) (addDelay : Bool) (frames : List Frame)
    (sized : forall frame, frame ∈ frames -> frame.Sized) (calls : List Call)
    (some_ : forall call, call ∈ calls -> call.chunk ≠ [])
    (cut : delivered calls <+: Framing.stream encode frames) :
    (forall earlier later, calls = earlier ++ later -> Exists fun c =>
      execute step (new testCount addDelay) earlier = some c ∧
        c.Follows frames (delivered earlier)) ↔
      forall earlier call later, calls = earlier ++ call :: later ->
        Fits frames (delivered earlier) call := by
  constructor
  · intro follows earlier call later split
    have chunk : call.chunk ≠ [] := by
      apply some_
      rw [split]
      exact List.mem_append_right _ List.mem_cons_self
    rcases follows earlier (call :: later) split with ⟨c, executed, before⟩
    rcases follows (earlier ++ [call]) later (by rw [split, List.append_cons]) with
      ⟨after, stepped, afterFollows⟩
    rw [execute_snoc, executed, Option.bind_some] at stepped
    rw [delivered_snoc] at afterFollows
    exact (step_follows_iff sized (delivered_isPrefix cut split) chunk before).mp
      ⟨after, stepped, afterFollows⟩
  · intro fits earlier later split
    exact follows_of_fits sized some_ cut fits split

/-- Three frames. -/
def severalFrames : List Frame :=
  [⟨0, 0, [7]⟩, ⟨1, 0, []⟩, ⟨2, 0, [8, 9]⟩]

/-- Two frames in one chunk, and the third one cut in its header. -/
def severalCalls : List Call :=
  [⟨encode ⟨0, 0, [7]⟩ ++ encode ⟨1, 0, []⟩, [], fun _ => 0, fun _ => 0⟩,
    ⟨(encode ⟨2, 0, [8, 9]⟩).take 5, [], fun _ => 0, fun _ => 0⟩,
    ⟨(encode ⟨2, 0, [8, 9]⟩).drop 5, [], fun _ => 0, fun _ => 0⟩]

theorem follows_iff_fits_several :
    Exists fun c => execute step (new 10 false) severalCalls = some c ∧
      c.processed = severalFrames ∧ c.Follows severalFrames (delivered severalCalls) := by
  have sized : forall frame, frame ∈ severalFrames -> frame.Sized := by
    unfold Frame.Sized
    decide
  have some_ : forall call, call ∈ severalCalls -> call.chunk ≠ [] := by
    simp only [severalCalls, List.forall_mem_cons]
    exact ⟨by decide, by decide, by decide, List.forall_mem_nil _⟩
  have cut : delivered severalCalls <+: Framing.stream encode severalFrames := by decide
  have fits : forall earlier call later, severalCalls = earlier ++ call :: later ->
      Fits severalFrames (delivered earlier) call := by
    intro earlier call later split
    rcases earlier with _ | ⟨first, _ | ⟨second, _ | ⟨third, earlier⟩⟩⟩ <;>
      simp only [severalCalls, List.nil_append, List.cons_append, List.cons.injEq] at split
    · rcases split with ⟨rfl, rfl⟩
      exact ⟨by decide, by decide, by decide⟩
    · rcases split with ⟨rfl, rfl, rfl⟩
      exact ⟨by decide, by decide, by decide⟩
    · rcases split with ⟨rfl, rfl, rfl, rfl⟩
      exact ⟨by decide, by decide, by decide⟩
    · exact absurd split.2.2.2.symm (List.append_ne_nil_of_right_ne_nil _ (List.cons_ne_nil _ _))
  rcases (follows_iff_fits 10 false severalFrames sized severalCalls some_ cut).mpr fits
    severalCalls [] (List.append_nil _).symm with ⟨c, executed, follows⟩
  refine ⟨c, executed, follows.processed.trans ?_, follows⟩
  decide

/-- Two frames, cut behind the header of the second one. -/
def cutFrames : List Frame :=
  [⟨0, 0, []⟩, ⟨1, 0, [7]⟩]

def cutCalls : List Call :=
  [⟨encode ⟨0, 0, []⟩ ++ (encode ⟨1, 0, [7]⟩).take 12, [], fun _ => 0, fun _ => 0⟩,
    ⟨[7], [], fun _ => 0, fun _ => 0⟩]

/-- The first frame is processed twice and the second one never. -/
theorem cut_not_followed :
    delivered cutCalls = Framing.stream encode cutFrames ∧
      ¬ forall earlier later, cutCalls = earlier ++ later -> Exists fun c =>
        execute step (new 10 false) earlier = some c ∧
          c.Follows cutFrames (delivered earlier) := by
  refine ⟨by decide, ?_⟩
  intro follows
  rcases follows cutCalls [] rfl with ⟨c, executed, holds, _, _⟩
  have twice : (execute step (new 10 false) cutCalls).map Client.processed =
      some [⟨0, 0, []⟩, ⟨0, 0, []⟩] := by decide
  rw [executed, Option.map_some, holds] at twice
  exact absurd twice (by decide)

end Client
end Kcp
end ServerTech
