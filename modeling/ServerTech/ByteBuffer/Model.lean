import ServerTech.Foundation.Block
import ServerTech.Foundation.Codec
import ServerTech.Foundation.LittleEndian

namespace ServerTech

/-!
# The untyped byte buffer

`ByteBuffer` of the Windows server keeps a byte vector with a read and a write
position.  Values are appended at the write position and read back at the read
position, and nothing in the buffer records their types.  Both positions are
`size_t`, callers may set them to any value, and every sum with them is taken
modulo 2^64.

An access to a byte outside the vector has no result, and neither has a failed
assertion or a vector that would grow beyond `max_size`.  A read whose end,
as the code computes it, lies behind the last byte returns zeros instead.
-/

namespace ByteBuffer

/-- `max_size()` of a vector of bytes. -/
def maxSize : Nat := 2 ^ 63 - 1

/-- The byte vector of a buffer. -/
structure Storage where
  bytes : List UInt8
  bounded : bytes.length ≤ maxSize

namespace Storage

/-- No bytes, as the constructor and `clear` leave the vector. -/
def empty : Storage :=
  ⟨[], Nat.zero_le _⟩

/-- `resize` cuts the vector off or fills it up with zeros. -/
def resize (storage : Storage) (count : Nat) : Option Storage :=
  if fits : count ≤ maxSize then
    some ⟨storage.bytes.take count ++ List.replicate (count - storage.bytes.length) 0, by
      rw [List.length_append, List.length_take, List.length_replicate]
      omega⟩
  else none

/-- `resize` where the vector ends before `last`. -/
def grow (storage : Storage) (last : Nat) : Option Storage :=
  if storage.bytes.length < last then storage.resize last else some storage

/-- Copy bytes into the vector. -/
def store (storage : Storage) (offset : Nat) (data : List UInt8) : Option Storage :=
  if inside : offset + data.length ≤ storage.bytes.length then
    some ⟨Block.overwrite storage.bytes offset data, by
      rw [Block.length_overwrite _ inside]
      exact storage.bounded⟩
  else none

end Storage

end ByteBuffer

/-- The fields of a buffer. -/
structure ByteBuffer where
  storage : ByteBuffer.Storage
  rpos : UInt64
  wpos : UInt64

namespace ByteBuffer

/-- A buffer as the constructors leave it. -/
def new : ByteBuffer :=
  ⟨Storage.empty, 0, 0⟩

def size (buffer : ByteBuffer) : Nat :=
  buffer.storage.bytes.length

/-! ## Bytes in and out -/

/-- `append` of bytes at the write position. -/
def append (buffer : ByteBuffer) (src : List UInt8) : Option ByteBuffer :=
  if src.length = 0 then some buffer
  else if 10000000 ≤ buffer.size then none
  else
    ((buffer.storage.grow ((buffer.wpos.toNat + src.length) % 2 ^ 64)).bind fun storage =>
      storage.store buffer.wpos.toNat src).map fun storage =>
        { buffer with storage := storage, wpos := buffer.wpos + UInt64.ofNat src.length }

/-- `read<T>(pos)` for a type of `width` bytes, as the bytes of the value. -/
def readAt (buffer : ByteBuffer) (pos : UInt64) (width : Nat) : Option (List UInt8) :=
  if buffer.size < (pos.toNat + width) % 2 ^ 64 then some (List.replicate width 0)
  else Block.load buffer.storage.bytes pos.toNat width

/-- `read<T>()`, and `read(dest, len)`: the same test at the read position,
which then moves on whether or not there was anything to read. -/
def read (width : Nat) (buffer : ByteBuffer) : Option (List UInt8 × ByteBuffer) :=
  (buffer.readAt buffer.rpos width).map fun bytes =>
    (bytes, { buffer with rpos := buffer.rpos + UInt64.ofNat width })

/-! ## Values -/

/-- The widths of the integer types. -/
inductive Width
  | w8
  | w16
  | w32
  | w64
  deriving DecidableEq, Repr

/-- `sizeof` an integer type. -/
def Width.bytes : Width -> Nat
  | w8 => 1
  | w16 => 2
  | w32 => 4
  | w64 => 8

/-- The types with a stream operator. -/
inductive Ty
  | bool
  | unsigned (width : Width)
  | signed (width : Width)
  | float
  | double
  | string
  | vector (element : Ty)
  | list (element : Ty)
  | map (key value : Ty)
  deriving DecidableEq, Repr

/-- The values of a type.  Integers and floating-point numbers are bit
patterns, a string is its characters, and a map is its entries in the order of
its iterators. -/
def Value : Ty -> Type
  | .bool => Bool
  | .unsigned width => BitVec (8 * width.bytes)
  | .signed width => BitVec (8 * width.bytes)
  | .float => BitVec 32
  | .double => BitVec 64
  | .string => List UInt8
  | .vector element => List (Value element)
  | .list element => List (Value element)
  | .map key value => List (Value key × Value value)

/-! ## The order of keys

`std::map` compares its keys with the operator < of their type. -/

/-- The order of IEEE numbers on bit patterns.  A pattern with a full exponent
and a fraction is not a number and is not less than or greater than anything,
and the two zeros are equal. -/
def numberLess (exponent fraction : Nat) (first second : Nat) : Bool :=
  let magnitude (pattern : Nat) := pattern % 2 ^ (exponent + fraction)
  let isNan (pattern : Nat) := decide ((2 ^ exponent - 1) * 2 ^ fraction < magnitude pattern)
  let number (pattern : Nat) : Int :=
    if 2 ^ (exponent + fraction) ≤ pattern then - (magnitude pattern : Int) else magnitude pattern
  !isNan first && !isNan second && decide (number first < number second)

/-- `std::lexicographical_compare`. -/
def lexicographicLess {α : Type} (less : α -> α -> Bool) : List α -> List α -> Bool
  | _, [] => false
  | [], _ :: _ => true
  | first :: firsts, second :: seconds =>
      if less first second then true
      else if less second first then false
      else lexicographicLess less firsts seconds

/-- The operator < of `std::pair`. -/
def pairLess {α β : Type} (lessFirst : α -> α -> Bool) (lessSecond : β -> β -> Bool)
    (left right : α × β) : Bool :=
  lessFirst left.1 right.1 || (!lessFirst right.1 left.1 && lessSecond left.2 right.2)

/-- The operator < of a type. -/
def less : (type : Ty) -> Value type -> Value type -> Bool
  | .bool, first, second => !first && second
  | .unsigned _, first, second => BitVec.ult first second
  | .signed _, first, second => BitVec.slt first second
  | .float, first, second => numberLess 8 23 (BitVec.toNat first) (BitVec.toNat second)
  | .double, first, second => numberLess 11 52 (BitVec.toNat first) (BitVec.toNat second)
  | .string, first, second =>
      lexicographicLess (fun (left right : UInt8) => decide (left < right)) first second
  | .vector element, first, second => lexicographicLess (less element) first second
  | .list element, first, second => lexicographicLess (less element) first second
  | .map key value, first, second =>
      lexicographicLess (pairLess (less key) (less value)) first second

/-- `push_back` of a vector or a list. -/
def pushBack {α : Type} (values : List α) (value : α) : List α :=
  values ++ [value]

/-- `std::map::insert`: the entry goes before the first one whose key is not
less, unless that key is equivalent. -/
def insert {κ υ : Type} (less : κ -> κ -> Bool) : List (κ × υ) -> κ × υ -> List (κ × υ)
  | [], entry => [entry]
  | other :: entries, entry =>
      if less other.1 entry.1 then other :: insert less entries entry
      else if less entry.1 other.1 then entry :: other :: entries
      else other :: entries

/-! ## The stream operators -/

/-- A number in a field of the given width, as `append<T>` stores it. -/
def writeNumber (width value : Nat) (buffer : ByteBuffer) : Option ByteBuffer :=
  buffer.append (LittleEndian.encode width value)

/-- A number from a field of the given width. -/
def readNumber (width : Nat) (buffer : ByteBuffer) : Option (Nat × ByteBuffer) :=
  (read width buffer).map fun step => (LittleEndian.decode step.1, step.2)

/-- The loop of operator>> for strings.  Every read before the last one
returns a byte of the buffer, so `size() + 1` turns are enough. -/
def readChars : Nat -> List UInt8 -> ByteBuffer -> Option (List UInt8 × ByteBuffer)
  | 0, _, _ => none
  | turns + 1, value, buffer =>
      (readNumber 1 buffer).bind fun step =>
        if step.1 = 0 then some (value, step.2)
        else readChars turns (value ++ [UInt8.ofNat step.1]) step.2

/-- operator<< of a type. -/
def write : (type : Ty) -> Value type -> ByteBuffer -> Option ByteBuffer
  | .bool, value => writeNumber 1 (Bool.toNat value)
  | .unsigned width, value => writeNumber width.bytes (BitVec.toNat value)
  | .signed width, value => writeNumber width.bytes (BitVec.toNat value)
  | .float, value => writeNumber 4 (BitVec.toNat value)
  | .double, value => writeNumber 8 (BitVec.toNat value)
  | .string, value => fun buffer => (buffer.append value).bind (writeNumber 1 0)
  | .vector element, value => fun buffer =>
      (writeNumber 4 (List.length value) buffer).bind (Codec.each (write element) value)
  | .list element, value => fun buffer =>
      (writeNumber 4 (List.length value) buffer).bind (Codec.each (write element) value)
  | .map key mapped, value => fun buffer =>
      (writeNumber 4 (List.length value) buffer).bind
        (Codec.each (fun entry buffer => (write key entry.1 buffer).bind (write mapped entry.2)) value)

/-- operator>> of a type.  A `char` is signed, and a bool is true when it is
positive. -/
def readValue : (type : Ty) -> ByteBuffer -> Option (Value type × ByteBuffer)
  | .bool => fun buffer =>
      (readNumber 1 buffer).map fun step => (decide (0 < (BitVec.ofNat 8 step.1).toInt), step.2)
  | .unsigned width => fun buffer =>
      (readNumber width.bytes buffer).map fun step => (BitVec.ofNat (8 * width.bytes) step.1, step.2)
  | .signed width => fun buffer =>
      (readNumber width.bytes buffer).map fun step => (BitVec.ofNat (8 * width.bytes) step.1, step.2)
  | .float => fun buffer =>
      (readNumber 4 buffer).map fun step => (BitVec.ofNat 32 step.1, step.2)
  | .double => fun buffer =>
      (readNumber 8 buffer).map fun step => (BitVec.ofNat 64 step.1, step.2)
  | .string => fun buffer => readChars (buffer.size + 1) [] buffer
  | .vector element => fun buffer =>
      (readNumber 4 buffer).bind fun step =>
        Codec.into (readValue element) pushBack step.1 [] step.2
  | .list element => fun buffer =>
      (readNumber 4 buffer).bind fun step =>
        Codec.into (readValue element) pushBack step.1 [] step.2
  | .map key mapped => fun buffer =>
      (readNumber 4 buffer).bind fun step =>
        Codec.into (fun buffer => (readValue key buffer).bind fun first =>
            (readValue mapped first.2).map fun second => ((first.1, second.1), second.2))
          (insert (less key)) step.1 [] step.2

/-- A value together with its type. -/
abbrev Item : Type :=
  (type : Ty) × Value type

/-! ## Positions and size -/

/-- `rpos(n)`. -/
def setRpos (position : UInt64) (buffer : ByteBuffer) : ByteBuffer :=
  { buffer with rpos := position }

/-- `wpos(n)`. -/
def setWpos (position : UInt64) (buffer : ByteBuffer) : ByteBuffer :=
  { buffer with wpos := position }

def clear (_buffer : ByteBuffer) : ByteBuffer :=
  new

def resize (newsize : UInt64) (buffer : ByteBuffer) : Option ByteBuffer :=
  (buffer.storage.resize newsize.toNat).map fun storage =>
    ⟨storage, 0, UInt64.ofNat storage.bytes.length⟩

/-- The loop of `hexlike` with its counters.  What it prints is left out, but
every byte it prints is read.  A split moves the read position back. -/
def hexlikeLoop : Nat -> UInt32 -> UInt32 -> UInt32 -> ByteBuffer -> Option ByteBuffer
  | 0, _, _, _, buffer => some buffer
  | turns + 1, i, j, k, buffer =>
      (buffer.readAt i.toUInt64 1).bind fun _ =>
        if i = j * 8 ∧ i ≠ k * 16 then hexlikeLoop turns (i + 1) (j + 1) k buffer
        else if i = k * 16 then
          ((List.range 16).mapM fun x => buffer.readAt (i - 16 + UInt32.ofNat x).toUInt64 1).bind
            fun _ => hexlikeLoop turns (i + 1) (j + 1) (k + 1)
              (buffer.setRpos (buffer.rpos - 16))
        else hexlikeLoop turns (i + 1) j k buffer

/-- `hexlike` counts in 32 bits, so it does not return from a larger buffer. -/
def hexlike (buffer : ByteBuffer) : Option ByteBuffer :=
  if 2 ^ 32 ≤ buffer.size then none else hexlikeLoop buffer.size 0 1 1 buffer

/-! ## Packed identifiers -/

/-- Set a bit of the mask byte. -/
def setMask (position : UInt64) (bit : Nat) (buffer : ByteBuffer) : Option ByteBuffer :=
  (Block.load buffer.storage.bytes position.toNat 1).bind fun mask =>
    (buffer.storage.store position.toNat
      (mask.map fun byte => byte ||| UInt8.ofNat (2 ^ bit))).map fun storage =>
        { buffer with storage := storage }

/-- The loop of `appendPackGUID` over the bytes of the identifier. -/
def packLoop (position : UInt64) : List Nat -> BitVec 64 -> ByteBuffer -> Option ByteBuffer
  | [], _, buffer => some buffer
  | i :: bits, guid, buffer =>
      if guid.toNat % 256 = 0 then packLoop position bits (guid >>> 8) buffer
      else
        ((buffer.setMask position i).bind (writeNumber 1 (guid.toNat % 256))).bind
          (packLoop position bits (guid >>> 8))

def appendPackGUID (guid : BitVec 64) (buffer : ByteBuffer) : Option ByteBuffer :=
  (writeNumber 1 0 buffer).bind (packLoop buffer.wpos (List.range 8) guid)

/-- `uint64(temp << count)`: the byte is shifted as an `int`, which has no
value from 32 places on, and the result is extended with its sign. -/
def shifted (temp count : Nat) : Option (BitVec 64) :=
  if count < 32 then some ((BitVec.ofNat 32 (temp * 2 ^ count)).signExtend 64) else none

/-- The loop of `unpackGUID` over the bits of the mask. -/
def unpackLoop (mask : Nat) :
    List Nat -> Option (BitVec 64) -> ByteBuffer -> Option (Option (BitVec 64) × ByteBuffer)
  | [], guid, buffer => some (guid, buffer)
  | i :: bits, guid, buffer =>
      if mask.testBit i then
        (readNumber 1 buffer).bind fun step =>
          unpackLoop mask bits
            (guid.bind fun value => (shifted step.1 (8 * i)).map fun part => value ||| part) step.2
      else unpackLoop mask bits guid buffer

/-- `unpackGUID`, with no value where a shift has none. -/
def unpackGUID (buffer : ByteBuffer) : Option (Option (BitVec 64) × ByteBuffer) :=
  (readNumber 1 buffer).bind fun step => unpackLoop step.1 (List.range 8) (some 0) step.2

end ByteBuffer
end ServerTech
