import ServerTech.ByteBuffer.RoundTrip
import ServerTech.Foundation.Octet

namespace ServerTech
namespace ByteBuffer

open Codec

/-!
# Packed identifiers

`appendPackGUID` writes a mask with one bit for every byte of the identifier
that is not zero, and then these bytes.  `unpackGUID` reads them back and puts
each one in its place with a shift.  The shift is made in `int`: it has no value
for the upper four bytes, and a fourth byte above 127 turns the sign bit on,
which is then extended.
-/

/-! ## The format -/

/-- The bytes of an identifier, the lowest first. -/
def guidBytes (guid : BitVec 64) : List UInt8 :=
  LittleEndian.encode 8 guid.toNat

/-- The bytes that are sent. -/
def kept (bytes : List UInt8) : List UInt8 :=
  bytes.filter fun byte => decide (byte ≠ 0)

/-- The mask of some bytes, the first of which has bit `i`. -/
def maskBits : Nat -> List UInt8 -> UInt8
  | _, [] => 0
  | i, byte :: bytes => (if byte = 0 then 0 else UInt8.ofNat (2 ^ i)) ||| maskBits (i + 1) bytes

/-- The identifier as the loop of `unpackGUID` puts it together, the first byte
with number `i`. -/
def restore : Nat -> List UInt8 -> Option (BitVec 64) -> Option (BitVec 64)
  | _, [], guid => guid
  | i, byte :: bytes, guid =>
      restore (i + 1) bytes (if byte = 0 then guid
        else guid.bind fun value => (shifted byte.toNat (8 * i)).map fun part => value ||| part)

theorem testBit_maskBits (bytes : List UInt8) {i : Nat} (fits : i + bytes.length ≤ 8) (place : Nat) :
    (maskBits i bytes).toNat.testBit place = decide (i ≤ place ∧ bytes.getD (place - i) 0 ≠ 0) := by
  induction bytes generalizing i with
  | nil => simp [maskBits]
  | cons byte bytes inductionHypothesis =>
      rw [List.length_cons] at fits
      have power : (UInt8.ofNat (2 ^ i)).toNat = 2 ^ i := by
        rw [UInt8.toNat_ofNat']
        exact Nat.mod_eq_of_lt (Nat.pow_lt_pow_right (by decide) (by omega))
      have own : (if byte = 0 then (0 : UInt8) else UInt8.ofNat (2 ^ i)).toNat.testBit place =
          decide (place = i ∧ byte ≠ 0) := by
        by_cases zero : byte = 0
        · simp [zero]
        · rw [if_neg zero, power, Nat.testBit_two_pow]
          simp [zero, eq_comm]
      rw [maskBits, UInt8.toNat_or, Nat.testBit_or, inductionHypothesis (by omega), own,
        ← Bool.decide_or]
      apply decide_eq_decide.mpr
      rcases Nat.lt_trichotomy place i with below | rfl | above
      · simp only [Nat.ne_of_lt below, Nat.not_le.mpr below,
          Nat.not_le.mpr (Nat.lt_succ_of_lt below), false_and, or_self]
      · simp only [Nat.not_succ_le_self, false_and, or_false, true_and, Nat.le_refl, Nat.sub_self,
          List.getD_cons_zero]
      · have next : place - i = (place - (i + 1)) + 1 := by omega
        simp only [Nat.ne_of_gt above, Nat.succ_le_of_lt above, Nat.le_of_lt above, false_and, false_or,
          true_and, next, List.getD_cons_succ]

/-! ## Packing -/

/-- The buffer holds these bytes and has its write position behind them. -/
structure Holds (buffer : ByteBuffer) (held : List UInt8) : Prop where
  bytes : buffer.storage.bytes = held
  wpos : buffer.wpos.toNat = held.length

theorem Holds.size_eq {buffer : ByteBuffer} {held : List UInt8} (holds : Holds buffer held) :
    buffer.size = held.length :=
  congrArg List.length holds.bytes

/-- What comes of writing up to these bytes: a buffer that holds them, or
nothing when the assertion does not let the last one pass. -/
def Yields (result : Option ByteBuffer) (held : List UInt8) : Prop :=
  if held.length ≤ 10000000 then
    Exists fun after => result = some after ∧ Holds after held
  else result = none

theorem Holds.writeByte {buffer : ByteBuffer} {held : List UInt8} (holds : Holds buffer held)
    (value : Nat) : Yields (writeNumber 1 value buffer) (held ++ [UInt8.ofNat value]) := by
  have one : LittleEndian.encode 1 value = [UInt8.ofNat value] := rfl
  have nonempty : [UInt8.ofNat value].length ≠ 0 := Nat.one_ne_zero
  rw [writeNumber, one, Yields, List.length_append, List.length_singleton]
  by_cases asserted : held.length + 1 ≤ 10000000
  · have fits : buffer.size + [UInt8.ofNat value].length ≤ maxSize := by
      rw [holds.size_eq, List.length_singleton, maxSize]
      omega
    rw [if_pos asserted, append_atEnd buffer (holds.wpos.trans holds.size_eq.symm) nonempty
      (Nat.lt_of_le_of_lt (Nat.le_of_eq holds.size_eq) asserted), dif_pos fits]
    refine ⟨_, rfl, congrArg (· ++ [UInt8.ofNat value]) holds.bytes, ?_⟩
    rw [UInt64.toNat_add, UInt64.toNat_ofNat', holds.wpos, List.length_append, List.length_singleton]
    omega
  · rw [if_neg asserted, append, if_neg nonempty, if_pos]
    rw [holds.size_eq]
    omega

theorem Holds.setMask {buffer : ByteBuffer} {front payload : List UInt8} {mask : UInt8}
    (holds : Holds buffer (front ++ mask :: payload)) {position : UInt64}
    (start : position.toNat = front.length) (bit : Nat) :
    Exists fun after => buffer.setMask position bit = some after ∧
      Holds after (front ++ (mask ||| UInt8.ofNat (2 ^ bit)) :: payload) := by
  have inside : position.toNat + 1 ≤ buffer.storage.bytes.length := by
    rw [start, holds.bytes, List.length_append, List.length_cons]
    omega
  have found : Block.slice buffer.storage.bytes position.toNat 1 = [mask] := by
    rw [holds.bytes, start, Block.slice, List.drop_left]
    rfl
  have stored : Block.overwrite buffer.storage.bytes position.toNat [mask ||| UInt8.ofNat (2 ^ bit)] =
      front ++ (mask ||| UInt8.ofNat (2 ^ bit)) :: payload := by
    rw [holds.bytes, start, Block.overwrite, List.take_left, ← List.drop_drop, List.drop_left]
    rfl
  have room : position.toNat + [mask ||| UInt8.ofNat (2 ^ bit)].length ≤ buffer.storage.bytes.length :=
    inside
  rw [ByteBuffer.setMask, Block.load_eq_some _ inside, found, Option.bind_some, List.map_singleton,
    Storage.store, dif_pos room]
  refine ⟨_, rfl, stored, ?_⟩
  rw [List.length_append, List.length_cons]
  exact holds.wpos.trans (by rw [List.length_append, List.length_cons])

theorem kept_cons (byte : UInt8) (bytes : List UInt8) :
    kept (byte :: bytes) = if byte = 0 then kept bytes else byte :: kept bytes := by
  unfold kept
  by_cases zero : byte = 0
  · rw [if_pos zero, List.filter_cons_of_neg (by simp [zero])]
  · rw [if_neg zero, List.filter_cons_of_pos (by simp [zero])]

/-- The loop of `appendPackGUID`: the bytes that are not zero go behind the
payload and their bits into the mask. -/
theorem packLoop_yields {front : List UInt8} {position : UInt64} (start : position.toNat = front.length)
    (count i : Nat) (guid : BitVec 64) {buffer : ByteBuffer} {mask : UInt8} {payload : List UInt8}
    (holds : Holds buffer (front ++ mask :: payload))
    (small : (front ++ mask :: payload).length ≤ 10000000) :
    Yields (packLoop position (List.range' i count) guid buffer)
      (front ++ (mask ||| maskBits i (LittleEndian.encode count guid.toNat)) ::
        (payload ++ kept (LittleEndian.encode count guid.toNat))) := by
  induction count generalizing i guid buffer mask payload with
  | zero =>
      rw [LittleEndian.encode, maskBits, UInt8.or_zero, kept, List.filter_nil, List.append_nil, Yields,
        if_pos small]
      exact ⟨buffer, rfl, holds⟩
  | succ count inductionHypothesis =>
      have rest : (guid >>> 8).toNat = guid.toNat / 256 := by
        rw [BitVec.toNat_ushiftRight, Nat.shiftRight_eq_div_pow]
      have zeroByte : UInt8.ofNat guid.toNat = 0 <-> guid.toNat % 256 = 0 := by
        rw [← UInt8.toNat_inj, UInt8.toNat_ofNat']
        rfl
      rw [LittleEndian.encode, List.range'_succ, packLoop, kept_cons, maskBits, ← rest]
      by_cases zero : guid.toNat % 256 = 0
      · rw [if_pos (zeroByte.mpr zero), if_pos zero, if_pos (zeroByte.mpr zero), UInt8.zero_or]
        exact inductionHypothesis (i + 1) (guid >>> 8) holds small
      · have same : UInt8.ofNat (guid.toNat % 256) = UInt8.ofNat guid.toNat := by
          apply UInt8.toNat_inj.mp
          rw [UInt8.toNat_ofNat', UInt8.toNat_ofNat', Nat.mod_mod]
        rcases holds.setMask start i with ⟨marked, set, marks⟩
        have written := marks.writeByte (guid.toNat % 256)
        rw [if_neg (mt zeroByte.mp zero), if_neg zero, if_neg (mt zeroByte.mp zero), set, Option.bind_some,
          ← UInt8.or_assoc]
        rw [same, List.append_assoc, List.cons_append] at written
        by_cases room : (front ++ (mask ||| UInt8.ofNat (2 ^ i)) ::
            (payload ++ [UInt8.ofNat guid.toNat])).length ≤ 10000000
        · rw [Yields, if_pos room] at written
          rcases written with ⟨after, returned, held⟩
          rw [returned, Option.bind_some, List.append_cons payload]
          exact inductionHypothesis (i + 1) (guid >>> 8) held room
        · rw [Yields, if_neg room] at written
          rw [written, Option.bind_none, Yields, if_neg]
          simp only [List.length_append, List.length_cons, List.length_nil] at room ⊢
          omega

/-- The bytes that `appendPackGUID` appends. -/
def packed (guid : BitVec 64) : List UInt8 :=
  maskBits 0 (guidBytes guid) :: kept (guidBytes guid)

/-- At the end of the buffer the packed identifier goes behind what is there. -/
theorem appendPackGUID_yields (guid : BitVec 64) {buffer : ByteBuffer}
    (atEnd : buffer.wpos.toNat = buffer.size) :
    Yields (buffer.appendPackGUID guid) (buffer.storage.bytes ++ packed guid) := by
  have written := Holds.writeByte (⟨rfl, atEnd⟩ : Holds buffer buffer.storage.bytes) 0
  rw [appendPackGUID, List.range_eq_range']
  by_cases room : (buffer.storage.bytes ++ [UInt8.ofNat 0]).length ≤ 10000000
  · rw [Yields, if_pos room] at written
    rcases written with ⟨after, returned, held⟩
    rw [returned, Option.bind_some]
    have looped := packLoop_yields atEnd 8 0 guid held room
    rw [List.nil_append] at looped
    have none_ : UInt8.ofNat 0 ||| maskBits 0 (LittleEndian.encode 8 guid.toNat) =
        maskBits 0 (LittleEndian.encode 8 guid.toNat) := UInt8.zero_or
    rw [none_] at looped
    exact looped
  · rw [Yields, if_neg room] at written
    rw [written, Option.bind_none, Yields, if_neg]
    simp only [packed, List.length_append, List.length_cons, List.length_nil] at room ⊢
    omega

/-! ## Unpacking -/

/-- The loop of `unpackGUID` takes the bytes whose bits are set. -/
theorem unpackLoop_consumes {mask : Nat} (bytes : List UInt8) (i : Nat)
    (marks : forall place, place < bytes.length ->
      mask.testBit (i + place) = decide (bytes.getD place 0 ≠ 0)) (guid : Option (BitVec 64)) :
    Consumes Cut (unpackLoop mask (List.range' i bytes.length) guid) (kept bytes)
      (restore i bytes guid) := by
  induction bytes generalizing i guid with
  | nil =>
      intro buffer before after position
      refine ⟨buffer, rfl, ?_⟩
      rw [kept, List.filter_nil, List.append_nil]
      exact position
  | cons byte bytes inductionHypothesis =>
      have own : mask.testBit i = decide (byte ≠ 0) := marks 0 (Nat.succ_pos _)
      have later : forall place, place < bytes.length ->
          mask.testBit (i + 1 + place) = decide (bytes.getD place 0 ≠ 0) := by
        intro place inside
        have next := marks (place + 1) (Nat.succ_lt_succ inside)
        rw [List.getD_cons_succ] at next
        rw [← next, Nat.add_assoc, Nat.add_comm 1]
      rw [kept_cons, restore]
      by_cases zero : byte = 0
      · rw [if_pos zero, if_pos zero]
        intro buffer before after position
        rw [List.length_cons, List.range'_succ, unpackLoop, own, if_neg (by simp [zero])]
        exact inductionHypothesis (i + 1) later guid buffer before after position
      · rw [if_neg zero, if_neg zero]
        have rest := inductionHypothesis (i + 1) later
          (guid.bind fun value => (shifted byte.toNat (8 * i)).map fun part => value ||| part)
        intro buffer before after position
        rw [List.length_cons, List.range'_succ, unpackLoop, own, if_pos (by simp [zero])]
        exact @Consumes.bind _ _ _ _ _ _ (fun number buffer =>
          unpackLoop mask (List.range' (i + 1) bytes.length)
            (guid.bind fun value => (shifted number (8 * i)).map fun part => value ||| part) buffer)
          [byte] _ _ _ (readByte_consumes byte) rest buffer before after position

/-- `unpackGUID` takes a packed identifier, and puts together what it can. -/
theorem unpackGUID_consumes (guid : BitVec 64) :
    Consumes Cut unpackGUID (packed guid) (restore 0 (guidBytes guid) (some 0)) := by
  have length : (guidBytes guid).length = 8 := LittleEndian.length_encode 8 _
  have marks : forall place, place < (guidBytes guid).length ->
      (maskBits 0 (guidBytes guid)).toNat.testBit (0 + place) =
        decide ((guidBytes guid).getD place 0 ≠ 0) := by
    intro place _
    rw [testBit_maskBits _ (by omega), Nat.zero_add]
    simp
  have loop := unpackLoop_consumes (guidBytes guid) 0 marks (some 0)
  rw [length, ← List.range_eq_range'] at loop
  exact @Consumes.bind _ _ _ _ _ _ (fun number buffer =>
    unpackLoop number (List.range 8) (some 0) buffer) [_] _ _ _
    (readByte_consumes (maskBits 0 (guidBytes guid))) loop

/-! ## Putting the bytes in place -/

/-- One of the lower four bytes is put in place in `int`, whose sign is then
extended. -/
theorem place_low (byte : UInt8) {i : Nat} (low : i < 4) (value : BitVec 32)
    (small : value.toNat < 256 ^ i) :
    Exists fun placed : BitVec 32 => placed.toNat = value.toNat + byte.toNat * 256 ^ i ∧
      (if byte = 0 then some (value.signExtend 64)
        else (some (value.signExtend 64)).bind fun value =>
          (shifted byte.toNat (8 * i)).map fun part => value ||| part) = some (placed.signExtend 64) := by
  by_cases zero : byte = 0
  · refine ⟨value, ?_, if_pos zero⟩
    rw [zero, UInt8.toNat_zero, Nat.zero_mul, Nat.add_zero]
  · have byteSmall := Nat.le_of_lt_succ byte.toNat_lt
    have place : 2 ^ (8 * i) = 256 ^ i := by rw [Nat.pow_mul]
    have fits : byte.toNat * 2 ^ (8 * i) < 2 ^ 32 := by
      calc byte.toNat * 2 ^ (8 * i) < 256 * 2 ^ (8 * i) :=
            Nat.mul_lt_mul_of_pos_right byte.toNat_lt (Nat.two_pow_pos _)
        _ = 256 ^ (i + 1) := by rw [place, Nat.pow_succ, Nat.mul_comm]
        _ ≤ 256 ^ 4 := Nat.pow_le_pow_right (by decide) low
    refine ⟨value ||| BitVec.ofNat 32 (byte.toNat * 2 ^ (8 * i)), ?_, ?_⟩
    · rw [BitVec.toNat_or, BitVec.toNat_ofNat, Nat.mod_eq_of_lt fits, ← Nat.shiftLeft_eq,
        Octet.or_shiftLeft (by rw [place]; exact small), place]
    · rw [if_neg zero, Option.bind_some, shifted, if_pos (by omega), Option.map_some,
        BitVec.signExtend_or]

theorem restore_low (bytes : List UInt8) (i : Nat) (fits : i + bytes.length ≤ 4) (value : BitVec 32)
    (small : value.toNat < 256 ^ i) :
    restore i bytes (some (value.signExtend 64)) =
      some ((BitVec.ofNat 32 (value.toNat + LittleEndian.decode bytes * 256 ^ i)).signExtend 64) := by
  induction bytes generalizing i value with
  | nil =>
      rw [restore, LittleEndian.decode, Nat.zero_mul, Nat.add_zero, BitVec.ofNat_toNat,
        BitVec.setWidth_eq]
  | cons byte bytes inductionHypothesis =>
      rw [List.length_cons] at fits
      rcases place_low byte (by omega : i < 4) value small with ⟨placed, sum, step⟩
      have below : placed.toNat < 256 ^ (i + 1) := by
        calc placed.toNat = value.toNat + byte.toNat * 256 ^ i := sum
          _ < 256 ^ i + 255 * 256 ^ i :=
            Nat.add_lt_add_of_lt_of_le small (Nat.mul_le_mul_right _ (Nat.le_of_lt_succ byte.toNat_lt))
          _ = 256 ^ (i + 1) := by rw [Nat.pow_succ]; omega
      rw [restore, step, inductionHypothesis (i + 1) (by omega) placed below, sum, LittleEndian.decode,
        Nat.add_assoc, Nat.pow_succ, Nat.add_mul, Nat.mul_assoc 256, Nat.mul_left_comm 256,
        Nat.mul_comm 256 (256 ^ i)]

/-- A byte from the fifth on has no value. -/
theorem restore_high (bytes : List UInt8) (i : Nat) (high : 4 ≤ i) (guid : Option (BitVec 64)) :
    restore i bytes guid = if bytes.all fun byte => byte = 0 then guid else none := by
  induction bytes generalizing i guid with
  | nil => rfl
  | cons byte bytes inductionHypothesis =>
      have shifted_none : shifted byte.toNat (8 * i) = none := if_neg (by omega)
      rw [restore, inductionHypothesis (i + 1) (by omega), List.all_cons]
      by_cases zero : byte = 0
      · simp only [zero, if_true, decide_true, Bool.true_and]
      · simp only [zero, if_false, decide_false, Bool.false_and, shifted_none, Option.map_none,
          Option.bind_fun_none, ite_self, Bool.false_eq_true]

theorem restore_append (first second : List UInt8) (i : Nat) (guid : Option (BitVec 64)) :
    restore i (first ++ second) guid = restore (i + first.length) second (restore i first guid) := by
  induction first generalizing i guid with
  | nil => rfl
  | cons byte first inductionHypothesis =>
      rw [List.cons_append, restore, inductionHypothesis, restore, List.length_cons, Nat.add_right_comm,
        Nat.add_assoc]

/-- What `unpackGUID` makes of an identifier: nothing if it has an upper byte,
and otherwise its lower half with the sign extended. -/
theorem restore_guidBytes (guid : BitVec 64) :
    restore 0 (guidBytes guid) (some 0) =
      if guid.toNat < 2 ^ 32 then some ((BitVec.ofNat 32 guid.toNat).signExtend 64) else none := by
  have zero : (0 : BitVec 64) = (0 : BitVec 32).signExtend 64 := by decide
  have upper : ((LittleEndian.encode 4 (guid.toNat / 256 ^ 4)).all fun byte => byte = 0) = true <->
      guid.toNat < 2 ^ 32 := by
    have large := guid.isLt
    simp only [List.all_eq_true, decide_eq_true_eq]
    rw [← LittleEndian.decode_eq_zero_iff, LittleEndian.decode_encode]
    omega
  have four : 0 + (LittleEndian.encode 4 guid.toNat).length ≤ 4 := by
    rw [Nat.zero_add]
    exact Nat.le_of_eq (LittleEndian.length_encode 4 guid.toNat)
  rw [guidBytes, LittleEndian.encode_add 4 4, restore_append, LittleEndian.length_encode, zero,
    restore_low _ 0 four 0 (by decide), restore_high _ _ (by decide),
    LittleEndian.decode_encode]
  by_cases low : guid.toNat < 2 ^ 32
  · have lower : guid.toNat % 256 ^ 4 = guid.toNat := Nat.mod_eq_of_lt low
    rw [if_pos (upper.mpr low), if_pos low, Nat.pow_zero, Nat.mul_one, lower]
    simp
  · rw [if_neg (mt upper.mp low), if_neg low]

/-- An identifier is put together again exactly when it is below 2^31. -/
theorem restore_eq_iff (guid : BitVec 64) :
    restore 0 (guidBytes guid) (some 0) = some guid <-> guid.toNat < 2 ^ 31 := by
  rw [restore_guidBytes]
  by_cases low : guid.toNat < 2 ^ 32
  · rw [if_pos low, Option.some.injEq, ← BitVec.toNat_inj, BitVec.toNat_signExtend,
      BitVec.toNat_setWidth, BitVec.toNat_ofNat, BitVec.msb_eq_decide, BitVec.toNat_ofNat]
    have half : 2 ^ (32 - 1) ≤ guid.toNat % 2 ^ 32 <-> ¬ guid.toNat < 2 ^ 31 := by omega
    simp only [decide_eq_true_iff, half]
    by_cases positive : guid.toNat < 2 ^ 31
    · simp only [positive, not_true, if_false, iff_true]
      omega
    · simp only [positive, not_false_iff, if_true, iff_false]
      omega
  · rw [if_neg low]
    simp only [reduceCtorEq, false_iff]
    omega

/-! ## The round trip -/

/-- The number of bytes of a packed identifier: the mask, and the bytes that are
not zero. -/
def packedLength (guid : BitVec 64) : Nat :=
  1 + (kept (guidBytes guid)).length

/-- What packing and unpacking an identifier should do: the bytes that are
there stay, the packed identifier is appended, and a read from the old end
returns the identifier and stops behind the last byte. -/
def RoundTrips (guid : BitVec 64) (buffer : ByteBuffer) : Prop :=
  Exists fun after => Exists fun last =>
    buffer.appendPackGUID guid = some after ∧
      after.storage.bytes.take buffer.size = buffer.storage.bytes ∧
      after.size = buffer.size + packedLength guid ∧
      (after.setRpos buffer.wpos).unpackGUID = some (some guid, last) ∧
      last.rpos.toNat = buffer.wpos.toNat + packedLength guid

/-- An identifier makes the round trip exactly when it is below 2^31 and the
assertion leaves room for its bytes. -/
theorem packGUID_iff (guid : BitVec 64) (buffer : ByteBuffer) (atEnd : buffer.wpos.toNat = buffer.size) :
    RoundTrips guid buffer <->
      guid.toNat < 2 ^ 31 ∧ buffer.size + packedLength guid ≤ 10000000 := by
  have yields := appendPackGUID_yields guid atEnd
  have length : (packed guid).length = packedLength guid := by
    rw [packed, List.length_cons, packedLength, Nat.add_comm]
  have total : (buffer.storage.bytes ++ packed guid).length = buffer.size + packedLength guid := by
    rw [List.length_append, length]
    rfl
  rw [Yields, total] at yields
  by_cases room : buffer.size + packedLength guid ≤ 10000000
  · rw [if_pos room] at yields
    rcases yields with ⟨after, returned, holds⟩
    have position : Cut (after.setRpos buffer.wpos) buffer.storage.bytes (packed guid ++ []) := by
      rw [List.append_nil]
      exact ⟨holds.bytes, atEnd⟩
    rcases unpackGUID_consumes guid _ _ _ position with ⟨last, unpacked, arrived⟩
    constructor
    · rintro ⟨other, end_, appended, _, _, found, _⟩
      cases returned.symm.trans appended
      rw [unpacked, Option.some.injEq, Prod.mk.injEq] at found
      exact ⟨(restore_eq_iff guid).mp found.1, room⟩
    · rintro ⟨small, _⟩
      rw [(restore_eq_iff guid).mpr small] at unpacked
      refine ⟨after, last, returned, ?_, ?_, unpacked, ?_⟩
      · rw [holds.bytes]
        exact List.take_left
      · rw [holds.size_eq, total]
      · rw [arrived.rpos, total, atEnd]
  · rw [if_neg room] at yields
    constructor
    · rintro ⟨other, end_, appended, _⟩
      rw [yields] at appended
      cases appended
    · rintro ⟨_, fits⟩
      exact absurd fits room

/-- An identifier with three bytes, one of them above 127. -/
theorem packGUID_iff_three_bytes : RoundTrips 0x7F00FF01 new ∧ packedLength 0x7F00FF01 = 4 :=
  ⟨(packGUID_iff 0x7F00FF01 new rfl).mpr ⟨by decide, by decide +kernel⟩, by decide +kernel⟩

/-- The identifier 2^31 comes back with all upper bits set. -/
theorem packGUID_sign :
    ¬ forall (guid : BitVec 64) (buffer : ByteBuffer), buffer.wpos.toNat = buffer.size ->
      RoundTrips guid buffer := by
  intro claim
  rcases claim 0x80000000 new rfl with ⟨after, last, appended, _, _, unpacked, _⟩
  have facts : (new.appendPackGUID 0x80000000).map (fun after =>
      ((after.setRpos new.wpos).unpackGUID).map Prod.fst) = some (some (some 0xFFFFFFFF80000000)) := by
    decide +kernel
  rw [appended, Option.map_some, unpacked, Option.map_some, Option.some.injEq, Option.some.injEq,
    Option.some.injEq] at facts
  exact absurd facts (by decide)

end ByteBuffer
end ServerTech
